import RakudoStar.Strings.Spelling
import RakudoStar.Foundation.First

/-!
# Character classes

The test for a class and the two searches, over bytes and over iterators; with ICU or without
it.
-/

namespace RakudoStar.Strings

open List

/-- `INTVAL` flags. -/
abbrev ClassFlags : Type := BitVec 64

abbrev cclassAny : ClassFlags := 0xffff
abbrev cclassUppercase : ClassFlags := 0x0001
abbrev cclassLowercase : ClassFlags := 0x0002
abbrev cclassAlphabetic : ClassFlags := 0x0004
abbrev cclassNumeric : ClassFlags := 0x0008
abbrev cclassHexadecimal : ClassFlags := 0x0010
abbrev cclassWhitespace : ClassFlags := 0x0020
abbrev cclassPrinting : ClassFlags := 0x0040
abbrev cclassGraphical : ClassFlags := 0x0080
abbrev cclassBlank : ClassFlags := 0x0100
abbrev cclassControl : ClassFlags := 0x0200
abbrev cclassAlphanumeric : ClassFlags := 0x0800
abbrev cclassNewline : ClassFlags := 0x1000
abbrev cclassWord : ClassFlags := 0x2000

def typetable : List Nat :=
  [0x0200, 0x0200, 0x0200, 0x0200, 0x0200, 0x0200, 0x0200, 0x0200,
   0x0200, 0x0320, 0x1220, 0x0220, 0x1220, 0x1220, 0x0200, 0x0200,
   0x0200, 0x0200, 0x0200, 0x0200, 0x0200, 0x0200, 0x0200, 0x0200,
   0x0200, 0x0200, 0x0200, 0x0200, 0x0200, 0x0200, 0x0200, 0x0200,
   0x0160, 0x04c0, 0x04c0, 0x04c0, 0x04c0, 0x04c0, 0x04c0, 0x04c0,
   0x04c0, 0x04c0, 0x04c0, 0x04c0, 0x04c0, 0x04c0, 0x04c0, 0x04c0,
   0x28d8, 0x28d8, 0x28d8, 0x28d8, 0x28d8, 0x28d8, 0x28d8, 0x28d8,
   0x28d8, 0x28d8, 0x04c0, 0x04c0, 0x04c0, 0x04c0, 0x04c0, 0x04c0,
   0x04c0, 0x28d5, 0x28d5, 0x28d5, 0x28d5, 0x28d5, 0x28d5, 0x28c5,
   0x28c5, 0x28c5, 0x28c5, 0x28c5, 0x28c5, 0x28c5, 0x28c5, 0x28c5,
   0x28c5, 0x28c5, 0x28c5, 0x28c5, 0x28c5, 0x28c5, 0x28c5, 0x28c5,
   0x28c5, 0x28c5, 0x28c5, 0x04c0, 0x04c0, 0x04c0, 0x04c0, 0x24c0,
   0x04c0, 0x28d6, 0x28d6, 0x28d6, 0x28d6, 0x28d6, 0x28d6, 0x28c6,
   0x28c6, 0x28c6, 0x28c6, 0x28c6, 0x28c6, 0x28c6, 0x28c6, 0x28c6,
   0x28c6, 0x28c6, 0x28c6, 0x28c6, 0x28c6, 0x28c6, 0x28c6, 0x28c6,
   0x28c6, 0x28c6, 0x28c6, 0x04c0, 0x04c0, 0x04c0, 0x04c0, 0x0200,
   0x0200, 0x0200, 0x0200, 0x0200, 0x0200, 0x1220, 0x0200, 0x0200,
   0x0200, 0x0200, 0x0200, 0x0200, 0x0200, 0x0200, 0x0200, 0x0200,
   0x0200, 0x0200, 0x0200, 0x0200, 0x0200, 0x0200, 0x0200, 0x0200,
   0x0200, 0x0200, 0x0200, 0x0200, 0x0200, 0x0200, 0x0200, 0x0200,
   0x04e0, 0x04c0, 0x04c0, 0x04c0, 0x04c0, 0x04c0, 0x04c0, 0x04c0,
   0x04c0, 0x04c0, 0x28c4, 0x04c0, 0x04c0, 0x04c0, 0x04c0, 0x04c0,
   0x04c0, 0x04c0, 0x04c0, 0x04c0, 0x04c0, 0x28c6, 0x04c0, 0x04c0,
   0x04c0, 0x04c0, 0x28c4, 0x04c0, 0x04c0, 0x04c0, 0x04c0, 0x04c0,
   0x28c5, 0x28c5, 0x28c5, 0x28c5, 0x28c5, 0x28c5, 0x28c5, 0x28c5,
   0x28c5, 0x28c5, 0x28c5, 0x28c5, 0x28c5, 0x28c5, 0x28c5, 0x28c5,
   0x28c5, 0x28c5, 0x28c5, 0x28c5, 0x28c5, 0x28c5, 0x28c5, 0x04c0,
   0x28c5, 0x28c5, 0x28c5, 0x28c5, 0x28c5, 0x28c5, 0x28c5, 0x28c6,
   0x28c6, 0x28c6, 0x28c6, 0x28c6, 0x28c6, 0x28c6, 0x28c6, 0x28c6,
   0x28c6, 0x28c6, 0x28c6, 0x28c6, 0x28c6, 0x28c6, 0x28c6, 0x28c6,
   0x28c6, 0x28c6, 0x28c6, 0x28c6, 0x28c6, 0x28c6, 0x28c6, 0x04c0,
   0x28c6, 0x28c6, 0x28c6, 0x28c6, 0x28c6, 0x28c6, 0x28c6, 0x28c6]

/-- `Parrot_iso_8859_1_typetable[codepoint] & flags` -/
def inTable (codepoint : Nat) (flags : ClassFlags) : Bool :=
  BitVec.ofNat 64 (typetable.getD codepoint 0) &&& flags != 0

/-- A class that takes ICU, or what an access to the string ends with. -/
inductive ClassFault where
  | libraryError (message : String)
  | access (fault : Fault)
  deriving DecidableEq, Repr

structure IcuPredicates where
  isupper : Nat → Bool
  islower : Nat → Bool
  isalpha : Nat → Bool
  isdigit : Nat → Bool
  isxdigit : Nat → Bool
  isspace : Nat → Bool
  isprint : Nat → Bool
  isgraph : Nat → Bool
  isblank : Nat → Bool
  iscntrl : Nat → Bool
  isalnum : Nat → Bool

inductive Build where
  | icu (predicates : IcuPredicates)
  | noIcu

def ClassFlags.has (flags bit : ClassFlags) : Bool := flags &&& bit != 0

/-- The code points from U+1680 on that are white space. -/
def wideSpaces : List Nat :=
  [0x1680, 0x180e, 0x2000, 0x2001, 0x2002, 0x2003, 0x2004, 0x2005, 0x2006, 0x2007, 0x2008, 0x2009,
   0x200a, 0x2028, 0x2029, 0x202f, 0x205f, 0x3000]

/-- The zeros of the decimal digits behind Latin-1. -/
def wideZeros : List Nat :=
  [0x0660, 0x06f0, 0x07c0, 0x0966, 0x09e6, 0x0a66, 0x0ae6, 0x0b66, 0x0be6, 0x0c66, 0x0ce6, 0x0d66,
   0x0e50, 0x0ed0, 0x0f20, 0x1040, 0x17e0, 0x1810, 0x1946, 0x19d0, 0x1b50, 0xff10]

def uIscclass (build : Build) (codepoint : Nat) (flags : ClassFlags) : Except ClassFault Bool :=
  match build with
  | .icu p => .ok
      (flags.has cclassUppercase && p.isupper codepoint ||
        flags.has cclassLowercase && p.islower codepoint ||
        flags.has cclassAlphabetic && p.isalpha codepoint ||
        flags.has cclassNumeric && p.isdigit codepoint ||
        flags.has cclassHexadecimal && p.isxdigit codepoint ||
        flags.has cclassWhitespace && p.isspace codepoint ||
        flags.has cclassPrinting && p.isprint codepoint ||
        flags.has cclassGraphical && p.isgraph codepoint ||
        flags.has cclassBlank && p.isblank codepoint ||
        flags.has cclassControl && p.iscntrl codepoint ||
        flags.has cclassAlphanumeric && p.isalnum codepoint ||
        flags.has cclassWord && (p.isalnum codepoint || codepoint == 0x5f))
  | .noIcu =>
    if codepoint < 256 then .ok (inTable codepoint flags)
    else if flags = cclassAny then .ok true
    else if flags = cclassWord ∨ flags = cclassAlphabetic then .ok (codepoint < 0x2b0)
    else if flags.has cclassWhitespace ∧ codepoint ∈ wideSpaces then .ok true
    else if flags.has cclassNumeric ∧ ∃ first ∈ wideZeros, first ≤ codepoint ∧ codepoint ≤ first + 9
      then .ok true
    else if flags.has (~~~(cclassWhitespace ||| cclassNumeric ||| cclassNewline)) then
      .error (.libraryError "no ICU lib loaded")
    else .ok false

/-- `STRING_ord` of an index inside the string. -/
def stringOrd (order : ByteOrder) (src : ParrotString) (idx : Nat) : Except Fault Nat :=
  match src.encoding with
  | .ascii | .latin1 | .binary => (read src.bytes idx).map UInt8.toNat
  | .utf8 => do
    let start ← utf8SkipForward src.bytes 0 idx
    utf8Decode src.bytes start
  | .utf16 => do
    let start ← utf16SkipForward (unitsOf order src.bytes) 0 idx
    utf16Decode (unitsOf order src.bytes) start
  | .ucs2 => (read (unitsOf order src.bytes) idx).map UInt16.toNat
  | .ucs4 => read (codesOf order src.bytes) idx

/-- The test of `encoding_is_cclass` for one code point. -/
def hasClass (build : Build) (flags : ClassFlags) (codepoint : Nat) : Except ClassFault Bool :=
  if 256 ≤ codepoint then uIscclass build codepoint flags else .ok (inTable codepoint flags)

def encodingIsCclass (build : Build) (order : ByteOrder) (flags : ClassFlags)
    (src : ParrotString) (offset : Nat) : Except ClassFault Bool :=
  if src.strlen ≤ offset then .ok false
  else do
    let codepoint ← (stringOrd order src offset).mapError .access
    hasClass build flags codepoint

def fixed8IsCclass (flags : ClassFlags) (src : ParrotString) (offset : Nat) :
    Except ClassFault Bool :=
  if src.strlen ≤ offset then .ok false
  else do
    let codepoint ← (read src.bytes offset).mapError .access
    .ok (inTable codepoint.toNat flags)

def binaryError : ClassFault :=
  .access (.thrown .invalidEncoding "Invalid operation on binary string")

def isCclass (build : Build) (order : ByteOrder) (flags : ClassFlags) (src : ParrotString)
    (offset : Nat) : Except ClassFault Bool :=
  match src.encoding with
  | .ascii | .latin1 => fixed8IsCclass flags src offset
  | .binary => .error binaryError
  | .utf8 | .utf16 | .ucs2 | .ucs4 => encodingIsCclass build order flags src offset

/-- `end = offset + count`, in an `UINTVAL`, and not behind the string. -/
def searchEnd (src : ParrotString) (offset count : Nat) : Nat :=
  let stop := (offset + count) % 2 ^ 64
  if src.strlen < stop then src.strlen else stop

/-- `while (iter.charpos < end)`, with the number of positions that are left and the test that
returns. -/
def searchLoop (order : ByteOrder) (src : ParrotString) (stops : Nat → Except ClassFault Bool)
    (stop : Nat) : Nat → StringIter → Except ClassFault Nat
  | 0, _ => .ok stop
  | gap + 1, iter => do
    let (codepoint, iter) ← (iterGetAndAdvanceOf order src iter).mapError .access
    let found ← stops codepoint
    if found then .ok (iter.charpos - 1) else searchLoop order src stops stop gap iter

def encodingFindCclass (build : Build) (order : ByteOrder) (flags : ClassFlags)
    (src : ParrotString) (offset count : Nat) : Except ClassFault Nat := do
  let iter ← (iterSkipOf order src .init offset).mapError .access
  let stop := searchEnd src offset count
  searchLoop order src (hasClass build flags) stop (stop - iter.charpos) iter

/-- The bits from `enum_cclass_uppercase` to `enum_cclass_word`. -/
def classBits : List ClassFlags := (List.range 14).map fun shift => cclassUppercase <<< shift

/-- `(bit & flags) && !u_iscclass(interp, codepoint, bit)` for one of the bits. -/
def lacksClass (build : Build) (flags : ClassFlags) (codepoint : Nat) :
    List ClassFlags → Except ClassFault Bool
  | [] => .ok false
  | bit :: bits =>
    if flags.has bit then do
      let present ← uIscclass build codepoint bit
      if present then lacksClass build flags codepoint bits else .ok true
    else lacksClass build flags codepoint bits

/-- The test of `encoding_find_not_cclass` for one code point. -/
def leavesClass (build : Build) (flags : ClassFlags) (codepoint : Nat) : Except ClassFault Bool :=
  if 256 ≤ codepoint then lacksClass build flags codepoint classBits
  else .ok (!inTable codepoint flags)

def encodingFindNotCclass (build : Build) (order : ByteOrder) (flags : ClassFlags)
    (src : ParrotString) (offset count : Nat) : Except ClassFault Nat :=
  if src.strlen < offset then .ok ((offset + count) % 2 ^ 64)
  else do
    let iter ←
      if offset ≠ 0 then (iterSkipOf order src .init offset).mapError .access
      else .ok StringIter.init
    let stop := searchEnd src offset count
    if flags = cclassAny then .ok stop
    else searchLoop order src (leavesClass build flags) stop (stop - iter.charpos) iter

/-- `for (pos = offset; pos < end; ++pos)`, with the number of positions that are left. -/
def fixed8Loop (src : ParrotString) (stops : Nat → Bool) (stop : Nat) :
    Nat → Nat → Except ClassFault Nat
  | 0, _ => .ok stop
  | gap + 1, pos => do
    let codepoint ← (read src.bytes pos).mapError .access
    if stops codepoint.toNat then .ok pos else fixed8Loop src stops stop gap (pos + 1)

def fixed8FindCclass (flags : ClassFlags) (src : ParrotString) (offset count : Nat) :
    Except ClassFault Nat :=
  let stop := searchEnd src offset count
  fixed8Loop src (fun codepoint => inTable codepoint flags) stop (stop - offset) offset

def fixed8FindNotCclass (flags : ClassFlags) (src : ParrotString) (offset count : Nat) :
    Except ClassFault Nat :=
  let stop := searchEnd src offset count
  fixed8Loop src (fun codepoint => !inTable codepoint flags) stop (stop - offset) offset

def findCclass (build : Build) (order : ByteOrder) (flags : ClassFlags) (src : ParrotString)
    (offset count : Nat) : Except ClassFault Nat :=
  match src.encoding with
  | .ascii | .latin1 => fixed8FindCclass flags src offset count
  | .binary => .error binaryError
  | .utf8 | .utf16 | .ucs2 | .ucs4 => encodingFindCclass build order flags src offset count

def findNotCclass (build : Build) (order : ByteOrder) (flags : ClassFlags) (src : ParrotString)
    (offset count : Nat) : Except ClassFault Nat :=
  match src.encoding with
  | .ascii | .latin1 => fixed8FindNotCclass flags src offset count
  | .binary => .error binaryError
  | .utf8 | .utf16 | .ucs2 | .ucs4 => encodingFindNotCclass build order flags src offset count

open Foundation

variable {order : ByteOrder} {seed : UInt64} {build : Build} {flags : ClassFlags}
  {src : ParrotString} {cs : List Nat}

section

variable {other : ParrotString} {offset count k gap c : Nat}

section
variable (spells : Spells order seed src cs) {stop : Nat}
include spells

theorem stringOrd_at (inside : k < cs.length) : stringOrd order src k = .ok cs[k] := by
  have holds := spells.holds
  have bytes := spells.bytes
  have upTo : 0 + k ≤ cs.length := by
    rw [zero_add]
    exact le_of_lt inside
  unfold stringOrd
  cases encoding : src.encoding with
  | ascii | latin1 | binary =>
    obtain ⟨bytes, bound⟩ := spells.single (by rw [encoding]; rfl)
    rw [bytes]
    exact Except.map_eq_ok_iff.mpr (read_of_map (map_bytes bound k) inside)
  | utf8 =>
    rw [encoding] at bytes holds
    have moved := utf8Cursor.forward_boundary holds upTo
    rw [zero_add] at moved
    rw [bytes]
    exact (congrArg (· >>= _) moved).trans (utf8Cursor.get_boundary holds inside)
  | utf16 =>
    rw [encoding, text_utf16] at bytes
    rw [encoding] at holds
    have moved := utf16Cursor.forward_boundary holds upTo
    rw [zero_add] at moved
    rw [bytes, unitsOf_bytesOf]
    exact (congrArg (· >>= _) moved).trans (utf16Cursor.get_boundary holds inside)
  | ucs2 =>
    rw [encoding, text_ucs2] at bytes
    rw [encoding] at holds
    rw [bytes, unitsOf_bytesOf]
    exact Except.map_eq_ok_iff.mpr (read_of_map
      (map_ucs2 (fun c member => (holds c member).2) k) inside)
  | ucs4 =>
    rw [encoding] at bytes holds
    rw [bytes, codesOf_text order holds]
    exact read_of_lt inside

theorem read_fixed8_at (fixed8 : src.encoding = .ascii ∨ src.encoding = .latin1)
    (inside : k < cs.length) : (read src.bytes k).map UInt8.toNat = .ok cs[k] := by
  have there := stringOrd_at spells inside
  unfold stringOrd at there
  rcases fixed8 with encoding | encoding
  · rw [encoding] at there
    exact there
  · rw [encoding] at there
    exact there

theorem fixed8_lt (fixed8 : src.encoding = .ascii ∨ src.encoding = .latin1)
    (member : c ∈ cs) : c < 256 := by
  refine (spells.single ?_).2 c member
  rcases fixed8 with encoding | encoding <;> rw [encoding] <;> rfl

/-- The loop over an iterator tests one code point after the other. -/
theorem searchLoop_eq {stops : Nat → Except ClassFault Bool} (inside : k + gap ≤ cs.length) :
    searchLoop order src stops stop gap (stringIterAt order src.encoding cs k) =
      firstFrom (fun p => stops (cs.getD p 0)) stop gap k := by
  induction gap generalizing k with
  | zero => rfl
  | succ gap ih =>
    have here : k < cs.length := (Nat.lt_add_of_pos_right gap.succ_pos).trans_le inside
    have next : k + 1 + gap ≤ cs.length := by rwa [Nat.add_right_comm]
    rw [searchLoop, iterGetAndAdvanceOf_at spells here, firstFrom,
      getD_eq_getElem cs 0 here, ← ih next]
    rfl

theorem fixed8Loop_eq (fixed8 : src.encoding = .ascii ∨ src.encoding = .latin1) {test : Nat → Bool}
    {stops : Nat → Except ClassFault Bool} (same : ∀ c < 256, stops c = .ok (test c))
    (inside : k + gap ≤ cs.length) :
    fixed8Loop src test stop gap k = firstFrom (fun p => stops (cs.getD p 0)) stop gap k := by
  induction gap generalizing k with
  | zero => rfl
  | succ gap ih =>
    have here : k < cs.length := (Nat.lt_add_of_pos_right gap.succ_pos).trans_le inside
    have next : k + 1 + gap ≤ cs.length := by rwa [Nat.add_right_comm]
    have there := read_fixed8_at spells fixed8 here
    cases reading : read src.bytes k with
    | error fault =>
      rw [reading] at there
      cases there
    | ok byte =>
      rw [reading] at there
      rw [fixed8Loop, reading, firstFrom, getD_eq_getElem cs 0 here,
        same _ (fixed8_lt spells fixed8 (getElem_mem here)), ← ih next, ← Except.ok.inj there]
      rfl

end

theorem inTable_any (small : c < 256) : inTable c cclassAny = true := by
  have all : ∀ c : Fin 256, inTable c cclassAny = true := by decide +kernel
  exact all ⟨c, small⟩

theorem hasClass_of_lt (build : Build) (flags : ClassFlags) (small : c < 256) :
    hasClass build flags c = .ok (inTable c flags) :=
  if_neg small.not_ge

theorem implementation_cases (build : Build) (order : ByteOrder) (flags : ClassFlags)
    (text : src.encoding ≠ .binary) : ((src.encoding = .ascii ∨ src.encoding = .latin1) ∧
        isCclass build order flags src = fixed8IsCclass flags src ∧
        findCclass build order flags src = fixed8FindCclass flags src ∧
        findNotCclass build order flags src = fixed8FindNotCclass flags src) ∨
      (isCclass build order flags src = encodingIsCclass build order flags src ∧
        findCclass build order flags src = encodingFindCclass build order flags src ∧
        findNotCclass build order flags src = encodingFindNotCclass build order flags src) := by
  unfold isCclass findCclass findNotCclass
  cases encoding : src.encoding with
  | ascii => exact .inl ⟨.inl rfl, rfl, rfl, rfl⟩
  | latin1 => exact .inl ⟨.inr rfl, rfl, rfl, rfl⟩
  | binary => exact absurd encoding text
  | utf8 | utf16 | ucs2 | ucs4 => exact .inr ⟨rfl, rfl, rfl⟩

theorem isCclass_at (spells : Spells order seed src cs) (text : src.encoding ≠ .binary)
    (inside : k < cs.length) : isCclass build order flags src k = hasClass build flags cs[k] := by
  have inLength : ¬src.strlen ≤ k := by rw [spells.strlen]; exact not_le.mpr inside
  rcases implementation_cases build order flags text with ⟨fixed8, same, -, -⟩ | ⟨same, -, -⟩
  · have there := read_fixed8_at spells fixed8 inside
    rw [same, hasClass_of_lt build flags (fixed8_lt spells fixed8 (getElem_mem inside)),
      fixed8IsCclass, if_neg inLength]
    cases reading : read src.bytes k with
    | error fault =>
      rw [reading] at there
      cases there
    | ok byte =>
      rw [reading] at there
      rw [← Except.ok.inj there]
      rfl
  · rw [same, encodingIsCclass, if_neg inLength, stringOrd_at spells inside]
    rfl

theorem isCclass_outside (text : src.encoding ≠ .binary) (outside : src.strlen ≤ k) :
    isCclass build order flags src k = .ok false := by
  rcases implementation_cases build order flags text with ⟨-, same, -, -⟩ | ⟨same, -, -⟩
  · rw [same]
    exact if_pos outside
  · rw [same]
    exact if_pos outside

theorem searchEnd_le (src : ParrotString) (offset count : Nat) :
    searchEnd src offset count ≤ src.strlen := by
  rw [searchEnd]
  split
  · exact le_rfl
  · rename_i small
    exact not_lt.mp small

theorem search_inside (spells : Spells order seed src cs) (inside : offset ≤ cs.length) :
    offset + (searchEnd src offset count - offset) ≤ cs.length := by
  have bound := searchEnd_le src offset count
  rw [spells.strlen] at bound
  omega

theorem findCclass_eq (spells : Spells order seed src cs) (text : src.encoding ≠ .binary)
    (inside : offset ≤ cs.length) : findCclass build order flags src offset count =
      firstFrom (fun p => hasClass build flags (cs.getD p 0)) (searchEnd src offset count)
        (searchEnd src offset count - offset) offset := by
  have visited := @search_inside order seed src cs offset count spells inside
  rcases implementation_cases build order flags text with ⟨fixed8, -, same, -⟩ | ⟨-, same, -⟩
  · rw [same]
    exact fixed8Loop_eq spells fixed8 (fun c => hasClass_of_lt build flags) visited
  · rw [same, encodingFindCclass, iterSkip_init spells inside]
    exact searchLoop_eq spells visited

/-- Whether the search for a code point outside the class ends at this one. -/
def endsAt (build : Build) (flags : ClassFlags) (codepoint : Nat) : Except ClassFault Bool :=
  if flags = cclassAny then .ok false else leavesClass build flags codepoint

theorem endsAt_of_lt (build : Build) (flags : ClassFlags) (small : c < 256) :
    endsAt build flags c = .ok (!inTable c flags) := by
  unfold endsAt
  by_cases any : flags = cclassAny
  · rw [if_pos any, any, inTable_any small]
    rfl
  · rw [if_neg any, leavesClass, if_neg small.not_ge]

theorem findNotCclass_eq (spells : Spells order seed src cs) (text : src.encoding ≠ .binary)
    (inside : offset ≤ cs.length) : findNotCclass build order flags src offset count =
      firstFrom (fun p => endsAt build flags (cs.getD p 0)) (searchEnd src offset count)
        (searchEnd src offset count - offset) offset := by
  have visited := @search_inside order seed src cs offset count spells inside
  rcases implementation_cases build order flags text with ⟨fixed8, -, -, same⟩ | ⟨-, -, same⟩
  · rw [same]
    exact fixed8Loop_eq spells fixed8 (fun c => endsAt_of_lt build flags) visited
  have arrived : (if flags = cclassAny then .ok (searchEnd src offset count)
      else searchLoop order src (leavesClass build flags) (searchEnd src offset count)
        (searchEnd src offset count - offset) (stringIterAt order src.encoding cs offset)) =
      firstFrom (fun p => endsAt build flags (cs.getD p 0)) (searchEnd src offset count)
        (searchEnd src offset count - offset) offset := by
    by_cases any : flags = cclassAny
    · rw [if_pos any]
      exact (firstFrom_never fun p _ _ => if_pos any).symm
    · rw [if_neg any, searchLoop_eq spells visited]
      exact firstFrom_congr fun p _ _ => (if_neg any).symm
  rw [same, encodingFindNotCclass, if_neg (by rw [spells.strlen]; exact not_lt.mpr inside)]
  by_cases atStart : offset = 0
  · subst atStart
    exact arrived
  · rw [if_pos atStart, iterSkip_init spells inside]
    exact arrived

end

/-- What `encoding_find_not_cclass` looks for from 256 on. -/
def Lacks (build : Build) (flags : ClassFlags) (codepoint : Nat) : Prop :=
  flags ≠ cclassAny ∧
    ∃ bit ∈ classBits, flags.has bit = true ∧ uIscclass build codepoint bit = .ok false

/-- Each class that is asked for can be told of each code point behind Latin-1. -/
def Answered (build : Build) (flags : ClassFlags) (cs : List Nat) : Prop :=
  ∀ c ∈ cs, 256 ≤ c → ∀ bit ∈ classBits, flags.has bit = true →
    ∃ answer, uIscclass build c bit = .ok answer

/-- The searches return the first position that the test says. -/
structure SearchesExact (build : Build) (order : ByteOrder) (flags : ClassFlags)
    (src : ParrotString) (offset count : Nat) : Prop where
  member : ∃ p, findCclass build order flags src offset count = .ok p ∧
    IsFirst (fun q => isCclass build order flags src q = .ok true) offset
      (min (offset + count) src.strlen) p
  nonMember : ∃ p, findNotCclass build order flags src offset count = .ok p ∧
    IsFirst (fun q => isCclass build order flags src q = .ok false) offset
      (min (offset + count) src.strlen) p

/-- The test answers where it is asked, and decides alike behind Latin-1. -/
structure SearchCondition (build : Build) (order : ByteOrder) (flags : ClassFlags)
    (src : ParrotString) (cs : List Nat) (offset count : Nat) : Prop where
  text : src.encoding ≠ .binary
  inRange : offset + count < 2 ^ 64
  answers : ∀ p, offset ≤ p → p < min (offset + count) cs.length →
    (∀ q, offset ≤ q → q < p → isCclass build order flags src q ≠ .ok true) →
    ∃ answer, isCclass build order flags src p = .ok answer
  allOrNone : ∀ p c, offset ≤ p → p < min (offset + count) cs.length → cs[p]? = some c → 256 ≤ c →
    (∀ q, offset ≤ q → q < p → isCclass build order flags src q ≠ .ok false) →
    (Lacks build flags c ↔ uIscclass build c flags = .ok false)

section

variable {offset count c : Nat}

theorem lacksClass_spec (bits : List ClassFlags)
    (answers : ∀ bit ∈ bits, flags.has bit = true → ∃ answer, uIscclass build c bit = .ok answer) :
    ∃ lacks, lacksClass build flags c bits = .ok lacks ∧
      (lacks = true ↔ ∃ bit ∈ bits, flags.has bit = true ∧ uIscclass build c bit = .ok false) := by
  induction bits with
  | nil => exact ⟨false, rfl, by simp⟩
  | cons bit bits ih =>
    obtain ⟨lacks, rest, spec⟩ := ih (forall_mem_cons.mp answers).2
    rw [lacksClass]
    by_cases asked : flags.has bit = true
    · obtain ⟨answer, told⟩ := answers bit mem_cons_self asked
      rw [if_pos asked, told, Except.ok_bind]
      cases answer with
      | true =>
        refine ⟨lacks, rest, spec.trans ?_⟩
        simp [told]
      | false =>
        refine ⟨true, rfl, ?_⟩
        simp [told, asked]
    · rw [if_neg asked]
      refine ⟨lacks, rest, spec.trans ?_⟩
      simp [asked]

theorem endsAt_spec (answered : Answered build flags cs) (member : c ∈ cs) :
    ∃ ends, endsAt build flags c = .ok ends ∧ (256 ≤ c → (ends = true ↔ Lacks build flags c)) := by
  unfold endsAt Lacks
  by_cases any : flags = cclassAny
  · refine ⟨false, if_pos any, fun _ => ?_⟩
    simp [any]
  rw [if_neg any, leavesClass]
  by_cases wide : 256 ≤ c
  · obtain ⟨lacks, run, spec⟩ := lacksClass_spec classBits (answered c member wide)
    rw [if_pos wide]
    exact ⟨lacks, run, fun _ => spec.trans (and_iff_right any).symm⟩
  · rw [if_neg wide]
    exact ⟨_, rfl, fun impossible => absurd impossible wide⟩

theorem searchEnd_eq (spells : Spells order seed src cs) (inRange : offset + count < 2 ^ 64) :
    searchEnd src offset count = min (offset + count) cs.length := by
  rw [searchEnd, Nat.mod_eq_of_lt inRange, spells.strlen]
  split
  · rename_i large
    exact (min_eq_right large.le).symm
  · rename_i small
    exact (min_eq_left (not_lt.mp small)).symm

theorem searchEnd_wraps (src : ParrotString) (positioned : offset < 2 ^ 64)
    (counted : count < 2 ^ 64) (beyond : ¬offset + count < 2 ^ 64) :
    searchEnd src offset count < offset := by
  have bound : searchEnd src offset count ≤ (offset + count) % 2 ^ 64 := by
    rw [searchEnd]
    split
    · rename_i large
      exact le_of_lt large
    · exact le_rfl
  omega

theorem hasClass_getD (spells : Spells order seed src cs) (text : src.encoding ≠ .binary) {p : Nat}
    (inside : p < cs.length) :
    hasClass build flags (cs.getD p 0) = isCclass build order flags src p := by
  rw [getD_eq_getElem cs 0 inside, isCclass_at spells text inside]

theorem binary_throws (binary : src.encoding = .binary) :
    findCclass build order flags src offset count = .error binaryError := by
  rw [findCclass, binary]

section
variable (spells : Spells order seed src cs) {p : Nat}
include spells

/-- Where the search for a code point outside the class and the test agree. -/
theorem endsAt_agrees_iff (text : src.encoding ≠ .binary) (answered : Answered build flags cs)
    (inside : p < cs.length) :
    (endsAt build flags (cs.getD p 0) = .ok true ↔ isCclass build order flags src p = .ok false) ↔
      (256 ≤ cs[p] → (Lacks build flags cs[p] ↔ uIscclass build cs[p] flags = .ok false)) := by
  rw [isCclass_at spells text inside, getD_eq_getElem cs 0 inside]
  obtain ⟨ends, run, spec⟩ := endsAt_spec answered (getElem_mem inside)
  by_cases wide : 256 ≤ cs[p]
  · rw [run, hasClass, if_pos wide, ← spec wide]
    constructor
    · intro same _
      exact ⟨fun here => same.mp (congrArg Except.ok here),
        fun outside => Except.ok.inj (same.mpr outside)⟩
    intro same
    exact ⟨fun here => (same wide).mp (Except.ok.inj here),
      fun outside => congrArg Except.ok ((same wide).mpr outside)⟩
  have small : cs[p] < 256 := Nat.lt_of_not_le wide
  rw [endsAt_of_lt build flags small, hasClass_of_lt build flags small]
  constructor
  · intro _ impossible
    exact absurd impossible wide
  · intro _
    cases inTable cs[p] flags <;> simp

theorem search_whole (inString : offset ≤ cs.length) (inRange : offset + count < 2 ^ 64) :
    offset + (searchEnd src offset count - offset) = searchEnd src offset count := by
  have stop := searchEnd_eq spells inRange
  omega

theorem lt_of_lt_searchEnd (small : p < searchEnd src offset count) : p < cs.length := by
  rw [← spells.strlen]
  exact lt_of_lt_of_le small (searchEnd_le src offset count)

theorem findCclass_exact_iff (text : src.encoding ≠ .binary) (inString : offset ≤ cs.length)
    (inRange : offset + count < 2 ^ 64) :
    (∃ p, findCclass build order flags src offset count = .ok p ∧
        IsFirst (fun q => isCclass build order flags src q = .ok true) offset
          (searchEnd src offset count) p) ↔ ∀ p, offset ≤ p → p < searchEnd src offset count →
        (∀ q, offset ≤ q → q < p → isCclass build order flags src q ≠ .ok true) →
        ∃ answer, isCclass build order flags src p = .ok answer := by
  have whole := search_whole spells inString inRange
  have translate : findCclass build order flags src offset count =
      firstFrom (isCclass build order flags src) (searchEnd src offset count)
        (searchEnd src offset count - offset) offset := by
    rw [findCclass_eq spells text inString]
    apply firstFrom_congr
    intro p _ small
    rw [whole] at small
    exact hasClass_getD spells text (lt_of_lt_searchEnd spells small)
  rw [translate, ← firstFrom_ends_iff whole]
  constructor
  · rintro ⟨p, run, -⟩
    exact ⟨p, run⟩
  · rintro ⟨p, run⟩
    exact ⟨p, run, isFirst_of_firstFrom whole run⟩

theorem findNotCclass_exact_iff (text : src.encoding ≠ .binary) (inString : offset ≤ cs.length)
    (inRange : offset + count < 2 ^ 64) (answered : Answered build flags cs) :
    (∃ p, findNotCclass build order flags src offset count = .ok p ∧
        IsFirst (fun q => isCclass build order flags src q = .ok false) offset
          (searchEnd src offset count) p) ↔
      ∀ p c, offset ≤ p → p < searchEnd src offset count → cs[p]? = some c → 256 ≤ c →
        (∀ q, offset ≤ q → q < p → isCclass build order flags src q ≠ .ok false) →
        (Lacks build flags c ↔ uIscclass build c flags = .ok false) := by
  have whole := search_whole spells inString inRange
  have ends : ∃ r, firstFrom (fun p => endsAt build flags (cs.getD p 0))
      (searchEnd src offset count) (searchEnd src offset count - offset) offset = .ok r := by
    rw [firstFrom_ends_iff whole]
    intro p _ small _
    have inside := lt_of_lt_searchEnd spells small
    obtain ⟨answer, run, -⟩ := endsAt_spec answered (getElem_mem inside)
    rw [getD_eq_getElem cs 0 inside]
    exact ⟨answer, run⟩
  obtain ⟨r, run⟩ := ends
  have met := isFirst_of_firstFrom whole run
  rw [findNotCclass_eq spells text inString, run]
  constructor
  · rintro ⟨p, same, other⟩ p c atLeast small there wide earlier
    obtain rfl := Except.ok.inj same
    obtain ⟨inside, rfl⟩ := List.getElem?_eq_some_iff.mp there
    have agree := met.iff_agree.mp other p atLeast small earlier
    exact (endsAt_agrees_iff spells text answered inside).mp agree wide
  intro allOrNone
  refine ⟨r, rfl, met.iff_agree.mpr ?_⟩
  intro p atLeast small earlier
  have inside := lt_of_lt_searchEnd spells small
  apply (endsAt_agrees_iff spells text answered inside).mpr
  intro wide
  exact allOrNone p cs[p] atLeast small (getElem?_eq_getElem inside) wide earlier

theorem searchesExact_iff (inString : offset ≤ cs.length) (positioned : offset < 2 ^ 64)
    (counted : count < 2 ^ 64) (answered : Answered build flags cs) :
    SearchesExact build order flags src offset count ↔
      SearchCondition build order flags src cs offset count := by
  constructor
  · rintro ⟨member, nonMember⟩
    have text : src.encoding ≠ .binary := by
      intro binary
      obtain ⟨p, run, -⟩ := member
      rw [binary_throws binary] at run
      cases run
    have inRange : offset + count < 2 ^ 64 := by
      apply Decidable.not_not.mp
      intro beyond
      obtain ⟨p, run, found⟩ := member
      have wraps := searchEnd_wraps src positioned counted beyond
      rw [findCclass_eq spells text inString, Nat.sub_eq_zero_of_le wraps.le, firstFrom] at run
      obtain rfl := Except.ok.inj run
      exact absurd wraps (not_lt.mpr found.atLeast)
    have stop := searchEnd_eq spells inRange
    rw [spells.strlen, ← stop] at member nonMember
    have answers := (findCclass_exact_iff spells text inString inRange).mp member
    have allOrNone := (findNotCclass_exact_iff spells text inString inRange answered).mp nonMember
    rw [stop] at answers allOrNone
    exact ⟨text, inRange, answers, allOrNone⟩
  · rintro ⟨text, inRange, answers, allOrNone⟩
    have stop := searchEnd_eq spells inRange
    rw [← stop] at answers allOrNone
    constructor
    · rw [spells.strlen, ← stop]
      exact (findCclass_exact_iff spells text inString inRange).mpr answers
    · rw [spells.strlen, ← stop]
      exact (findNotCclass_exact_iff spells text inString inRange answered).mpr allOrNone

end

theorem same_cclass {other : ParrotString} (spells : Spells order seed src cs)
    (otherSpells : Spells order seed other cs) (text : src.encoding ≠ .binary)
    (otherText : other.encoding ≠ .binary) :
    (∀ p, isCclass build order flags src p = isCclass build order flags other p) ∧
      (offset ≤ cs.length → findCclass build order flags src offset count =
            findCclass build order flags other offset count ∧
          findNotCclass build order flags src offset count =
            findNotCclass build order flags other offset count) := by
  have stops : searchEnd src offset count = searchEnd other offset count := by
    rw [searchEnd, searchEnd, spells.strlen, otherSpells.strlen]
  constructor
  · intro p
    by_cases inside : p < cs.length
    · rw [isCclass_at spells text inside, isCclass_at otherSpells otherText inside]
    · rw [isCclass_outside text (by rw [spells.strlen]; exact not_lt.mp inside),
        isCclass_outside otherText (by rw [otherSpells.strlen]; exact not_lt.mp inside)]
  intro inString
  rw [findCclass_eq spells text inString, findCclass_eq otherSpells otherText inString,
    findNotCclass_eq spells text inString, findNotCclass_eq otherSpells otherText inString, stops]
  exact ⟨rfl, rfl⟩

/-- Searches and test agree exactly under the condition, and the functions for bytes agree with the
ones for iterators. -/
theorem cclass_searches (spells : Spells order seed src cs) (inString : offset ≤ cs.length)
    (positioned : offset < 2 ^ 64) (counted : count < 2 ^ 64)
    (answered : Answered build flags cs) : (SearchesExact build order flags src offset count ↔
        SearchCondition build order flags src cs offset count) ∧
      ∀ other, Spells order seed other cs → src.encoding ≠ .binary → other.encoding ≠ .binary →
        (∀ p, isCclass build order flags src p = isCclass build order flags other p) ∧
          findCclass build order flags src offset count =
            findCclass build order flags other offset count ∧
          findNotCclass build order flags src offset count =
            findNotCclass build order flags other offset count := by
  constructor
  · exact searchesExact_iff spells inString positioned counted answered
  intro other otherSpells text otherText
  obtain ⟨tests, searches⟩ := same_cclass spells otherSpells text otherText
  exact ⟨tests, searches inString⟩

end

/-- The letter `a` and an en quad, in UTF-8. -/
def enQuad : ParrotString := ⟨.utf8, [0x61, 0xe2, 0x80, 0x80], 2, 0⟩

theorem spells_enQuad : Spells .little 0 enQuad [0x61, 0x2000] where
  holds := by
    rintro c (_ | ⟨_, _ | ⟨_, ⟨⟩⟩⟩)
    · exact (by decide : IsCharacter 0x61)
    · exact (by decide : IsCharacter 0x2000)
  bytes := by decide
  strlen := rfl
  cached := .inl rfl

theorem answered_enQuad
    (within : (classBits.filter flags.has).all [cclassWhitespace, cclassNumeric].contains) :
    Answered .noIcu flags [0x61, 0x2000] := by
  rintro c (_ | ⟨_, _ | ⟨_, ⟨⟩⟩⟩) wide bit member asked
  · exact absurd wide (by decide)
  have known := all_eq_true.mp within bit (mem_filter.mpr ⟨member, asked⟩)
  rcases contains_iff_mem.mp known with _ | ⟨_, _ | ⟨_, ⟨⟩⟩⟩
  · exact ⟨true, rfl⟩
  · exact ⟨false, rfl⟩

theorem cclass_searches_enQuad : SearchesExact .noIcu .little cclassWhitespace enQuad 0 2 := by
  have first : isCclass .noIcu .little cclassWhitespace enQuad 0 = .ok false := rfl
  have second : isCclass .noIcu .little cclassWhitespace enQuad 1 = .ok true := rfl
  apply (cclass_searches spells_enQuad (by decide) (by decide) (by decide)
    (answered_enQuad (by decide))).1.mpr
  refine ⟨by decide, by decide, ?_, ?_⟩
  · rintro (_ | _ | p) - below -
    · exact ⟨false, first⟩
    · exact ⟨true, second⟩
    · exact absurd below (by simp)
  rintro (_ | p) c - - there wide earlier
  · obtain rfl := Option.some.inj there
    exact absurd wide (by decide)
  · exact absurd first (earlier 0 (le_refl 0) p.succ_pos)

/-- An en quad is a space or a digit, and the search for something else stops at it because it is
no digit. -/
theorem enQuad_left_out : Spells .little 0 enQuad [0x61, 0x2000] ∧
      Answered .noIcu (cclassWhitespace ||| cclassNumeric) [0x61, 0x2000] ∧
      isCclass .noIcu .little (cclassWhitespace ||| cclassNumeric) enQuad 1 = .ok true ∧
      findNotCclass .noIcu .little (cclassWhitespace ||| cclassNumeric) enQuad 1 1 = .ok 1 ∧
      ¬SearchesExact .noIcu .little (cclassWhitespace ||| cclassNumeric) enQuad 1 1 := by
  have here : isCclass .noIcu .little (cclassWhitespace ||| cclassNumeric) enQuad 1 = .ok true :=
    rfl
  have stopped :
      findNotCclass .noIcu .little (cclassWhitespace ||| cclassNumeric) enQuad 1 1 = .ok 1 := rfl
  refine ⟨spells_enQuad, answered_enQuad (by decide), here, stopped, ?_⟩
  rintro ⟨-, p, run, first⟩
  rw [stopped] at run
  obtain rfl := Except.ok.inj run
  have outside := first.here (by decide)
  rw [here] at outside
  exact Bool.noConfusion (Except.ok.inj outside)

end RakudoStar.Strings
