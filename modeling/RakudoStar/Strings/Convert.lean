import RakudoStar.Strings.Compare

/-!
# Substrings and conversions

The `substr` and `to_encoding` entries of the vtables. A copy is the same header over the same
bytes, so a single-byte conversion relabels it and a substring is a window.
-/

namespace RakudoStar.Strings

open Foundation List

def emptyString : ParrotString := ⟨.ascii, [], 0, 0⟩

/-- What a substring is cut from. -/
inductive Window where
  | empty
  | whole
  | part (start bufused strlen : Nat)
  deriving DecidableEq, Repr

/-- The string that a window shows. -/
def Window.view (src : ParrotString) : Window → ParrotString
  | .empty => emptyString
  | .whole => src
  | .part start bufused strlen => ⟨src.encoding, (src.bytes.drop start).take bufused, strlen, 0⟩

/-- What is done before the cut; a negative offset counts from the end. -/
def substrAround (src : ParrotString) (offset length : Int)
    (part : Nat → Nat → Except Fault Window) : Except Fault Window :=
  let offset := if offset < 0 then offset + src.strlen else offset
  if (offset < 0 ∨ src.strlen ≤ offset) ∨ length ≤ 0 then
    if offset = src.strlen ∨ length ≤ 0 then .ok .empty
    else .error (.thrown .substrOutOfString "Cannot take substr outside string")
  else if offset = 0 ∧ src.strlen ≤ length then .ok .whole
  else part offset.toNat length.toNat

/-- The iterator that `encoding_substr` starts with, moved only for a nonzero offset. -/
def startIter (order : ByteOrder) (src : ParrotString) (offset : Nat) : Except Fault StringIter :=
  if offset ≠ 0 then iterSkipOf order src .init offset else .ok .init

def encodingSubstr (order : ByteOrder) (src : ParrotString) (offset length : Int) :
    Except Fault Window :=
  substrAround src offset length fun offset length => do
    let iter ← startIter order src offset
    let start := iter.bytepos
    if src.strlen - offset ≤ length then
      .ok (.part start (src.bytes.length - start) (src.strlen - offset))
    else
      let iter ← iterSkipOf order src iter length
      .ok (.part start (iter.bytepos - start) length)

def fixedSubstr (src : ParrotString) (offset length : Int) : Except Fault Window :=
  substrAround src offset length fun offset length =>
    let bytesPerCodepoint := src.encoding.maxBytesPerCodepoint
    let maxlen := src.strlen - offset
    let length := if maxlen < length then maxlen else length
    .ok (.part (offset * bytesPerCodepoint) (length * bytesPerCodepoint) length)

/-- `STRING_substr`: the window that it cuts. -/
def stringSubstr (order : ByteOrder) (src : ParrotString) (offset length : Int) :
    Except Fault Window :=
  match src.encoding with
  | .ascii | .latin1 | .binary | .ucs2 | .ucs4 => fixedSubstr src offset length
  | .utf8 | .utf16 => encodingSubstr order src offset length

/-- Allocated storage enlarged, its contents kept. -/
def reallocate (memory : List UInt8) (size : Nat) : List UInt8 :=
  memory ++ List.replicate (size - memory.length) 0

/-- The loop of `encoding_to_encoding`; `estimate` is the multiplication by the
average number of bytes. -/
def convertLoop (order : ByteOrder) (estimate : Nat → Nat) (src : ParrotString)
    (encoding : Encoding) : Nat → StringIter → List UInt8 → StringIter →
    Except Fault (List UInt8 × StringIter)
  | 0, _, memory, dest => .ok (memory, dest)
  | count + 1, srcIter, memory, dest => do
    let (c, srcIter) ← iterGetAndAdvanceOf order src srcIter
    let needed := dest.bytepos + encoding.maxBytesPerCodepoint
    let memory :=
      if memory.length < needed then
        reallocate memory (estimate (src.strlen - srcIter.charpos) + needed)
      else memory
    let (memory, dest) ← iterSetAndAdvanceOf order encoding memory dest c
    convertLoop order estimate src encoding count srcIter memory dest

def encodingToEncoding (order : ByteOrder) (estimate : Nat → Nat) (src : ParrotString)
    (encoding : Encoding) : Except Fault ParrotString :=
  if src.encoding = encoding then .ok src
  else if src.strlen = 0 then .ok ⟨encoding, [], 0, 0⟩
  else do
    let maxBytes := encoding.maxBytesPerCodepoint
    let allocBytes := if estimate src.strlen < maxBytes then maxBytes else estimate src.strlen
    let (memory, dest) ←
      convertLoop order estimate src encoding src.strlen .init (List.replicate allocBytes 0) .init
    .ok ⟨encoding, memory.take dest.bytepos, src.strlen, 0⟩

/-- The exception of the single-byte conversions. -/
def lossyConversion : Fault :=
  .thrown .lossyConversion "Lossy conversion to single byte encoding"

/-- The check of `fixed8_to_encoding` on single-byte strings. -/
def checkBytes (bytes : List UInt8) (limit : Nat) : Nat → Nat → Except Fault Unit
  | 0, _ => .ok ()
  | count + 1, i => do
    let byte ← read bytes i
    if limit ≤ byte.toNat then .error lossyConversion else checkBytes bytes limit count (i + 1)

/-- The loop of `fixed8_to_encoding` on the other strings: the bytes stored. -/
def narrowLoop (order : ByteOrder) (src : ParrotString) (limit : Nat) :
    Nat → StringIter → Except Fault (List UInt8)
  | 0, _ => .ok []
  | count + 1, iter => do
    let (c, iter) ← iterGetAndAdvanceOf order src iter
    if limit ≤ c then .error lossyConversion
    else
      let rest ← narrowLoop order src limit count iter
      .ok (UInt8.ofNat c :: rest)

def fixed8ToEncoding (order : ByteOrder) (src : ParrotString) (enc : Encoding) :
    Except Fault ParrotString :=
  let limit := if enc = .ascii then 0x80 else 0x100
  if src.encoding.maxBytesPerCodepoint = 1 then
    if limit < 0x100 then do
      checkBytes src.bytes limit src.strlen 0
      .ok { src with encoding := enc }
    else .ok { src with encoding := enc }
  else do
    let bytes ← narrowLoop order src limit src.strlen .init
    .ok ⟨enc, bytes, src.strlen, 0⟩

/-- The loops that widen the bytes of a single-byte string. -/
def widenLoop (bytes : List UInt8) : Nat → Nat → Except Fault (List Nat)
  | 0, _ => .ok []
  | count + 1, i => do
    let byte ← read bytes i
    let rest ← widenLoop bytes count (i + 1)
    .ok (byte.toNat :: rest)

def utf8ToEncoding (order : ByteOrder) (estimate : Nat → Nat) (src : ParrotString) :
    Except Fault ParrotString :=
  if src.encoding = .ascii then .ok { src with encoding := .utf8 }
  else encodingToEncoding order estimate src .utf8

def utf16ToEncoding (order : ByteOrder) (estimate : Nat → Nat) (src : ParrotString) :
    Except Fault ParrotString :=
  if src.encoding.maxBytesPerCodepoint = 1 then do
    let codes ← widenLoop src.bytes src.strlen 0
    .ok ⟨.ucs2, bytesOf order (codes.map UInt16.ofNat), src.strlen, 0⟩
  else if src.encoding = .utf16 ∨ src.encoding = .ucs2 then .ok src
  else do
    let result ← encodingToEncoding order estimate src .utf16
    if result.bytes.length = result.strlen <<< 1 then .ok { result with encoding := .ucs2 }
    else .ok result

def ucs2ToEncoding (order : ByteOrder) (estimate : Nat → Nat) (src : ParrotString) :
    Except Fault ParrotString := do
  let result ← utf16ToEncoding order estimate src
  if result.encoding = .utf16 then
    .error (.thrown .invalidEncoding "Lossy conversion to UCS-2\n")
  else .ok result

def ucs4ToEncoding (order : ByteOrder) (src : ParrotString) : Except Fault ParrotString :=
  if src.encoding = .ucs4 then .ok src
  else if src.encoding.maxBytesPerCodepoint = 1 then do
    let codes ← widenLoop src.bytes src.strlen 0
    .ok ⟨.ucs4, codes.flatMap order.split4, src.strlen, 0⟩
  else do
    let (codes, _) ← iterateAll (iterGetAndAdvanceOf order src) src.strlen .init
    .ok ⟨.ucs4, codes.flatMap order.split4, src.strlen, 0⟩

/-- The `to_encoding` entry of an encoding. -/
def toEncoding (order : ByteOrder) (estimate : Nat → Nat) (encoding : Encoding)
    (src : ParrotString) : Except Fault ParrotString :=
  match encoding with
  | .ascii => fixed8ToEncoding order src .ascii
  | .latin1 => fixed8ToEncoding order src .latin1
  | .binary => fixed8ToEncoding order src .binary
  | .utf8 => utf8ToEncoding order estimate src
  | .utf16 => utf16ToEncoding order estimate src
  | .ucs2 => ucs2ToEncoding order estimate src
  | .ucs4 => ucs4ToEncoding order src

/-- The code points that `substr` selects, and where it throws. -/
def substrCodes (cs : List Nat) (offset length : Int) : Except Fault (List Nat) :=
  let offset := if offset < 0 then offset + cs.length else offset
  if length ≤ 0 ∨ offset = cs.length then .ok []
  else if offset < 0 ∨ cs.length < offset then
    .error (.thrown .substrOutOfString "Cannot take substr outside string")
  else .ok ((cs.drop offset.toNat).take length.toNat)

/-- A window that shows these code points, or the same failure. -/
def Shows (order : ByteOrder) (seed : UInt64) (src : ParrotString)
    (result : Except Fault Window) : Except Fault (List Nat) → Prop
  | .ok codes => ∃ window, result = .ok window ∧ Spells order seed (window.view src) codes ∧
      ∀ start bufused strlen, window = .part start bufused strlen →
        start + bufused ≤ src.bytes.length
  | .error fault => result = .error fault

section

variable {order : ByteOrder} {seed : UInt64} {src : ParrotString} {cs : List Nat}
  {code : WordCode Nat UInt8}

theorem emptyString_spells : Spells order seed emptyString [] where
  holds := nofun
  bytes := rfl
  strlen := rfl
  cached := .inl rfl

theorem text_window (cs : List Nat) (offset length : Nat) :
    ((code.text cs).drop (code.boundary cs offset)).take
        (code.boundary cs (offset + length) - code.boundary cs offset) =
      code.text ((cs.drop offset).take length) := by
  have size : code.boundary cs (offset + length) =
      code.boundary cs offset + code.boundary (cs.drop offset) length := by
    rw [WordCode.boundary, WordCode.boundary, WordCode.boundary, take_add,
      WordCode.text_append, length_append]
  rw [size, Nat.add_sub_cancel_left, WordCode.drop_boundary, WordCode.take_boundary]

theorem part_spells (spells : Spells order seed src cs) {offset length : Nat}
    (inside : offset + length ≤ cs.length) : Spells order seed
      ((Window.part ((codeOf order src.encoding).boundary cs offset)
        ((codeOf order src.encoding).boundary cs (offset + length) -
          (codeOf order src.encoding).boundary cs offset) length).view src)
      ((cs.drop offset).take length) where
  holds := fun c member => spells.holds c (mem_of_mem_drop (mem_of_mem_take member))
  bytes := by
    rw [Window.view, spells.bytes]
    exact text_window cs offset length
  strlen := by
    rw [length_take, length_drop]
    have enough : length ≤ cs.length - offset := by omega
    exact (min_eq_left enough).symm
  cached := .inl rfl

theorem boundary_mono (cs : List Nat) (offset length : Nat) :
    code.boundary cs offset ≤ code.boundary cs (offset + length) := by
  rw [WordCode.boundary, WordCode.boundary, take_add, WordCode.text_append, length_append]
  exact Nat.le_add_right _ _

section
variable (spells : Spells order seed src cs) (offset length : Int)
include spells

theorem part_shows {offset length : Nat} (inside : offset + length ≤ cs.length) :
    Shows order seed src (.ok (.part ((codeOf order src.encoding).boundary cs offset)
        ((codeOf order src.encoding).boundary cs (offset + length) -
          (codeOf order src.encoding).boundary cs offset) length))
      (.ok ((cs.drop offset).take length)) := by
  refine ⟨_, rfl, part_spells spells inside, ?_⟩
  rintro start bufused strlen same
  cases same
  have ordered : (codeOf order src.encoding).boundary cs offset ≤
      (codeOf order src.encoding).boundary cs (offset + length) := boundary_mono cs offset length
  have bounded := (codeOf order src.encoding).boundary_le_length cs (offset + length)
  rw [spells.bytes]
  omega

theorem substrAround_shows {part : Nat → Nat → Except Fault Window}
    (cut : ∀ offset length : Nat, offset < cs.length → 0 < length →
      Shows order seed src (part offset length) (.ok ((cs.drop offset).take length))) :
    Shows order seed src (substrAround src offset length part) (substrCodes cs offset length) := by
  unfold substrAround substrCodes
  rw [spells.strlen]
  simp only
  generalize (if offset < 0 then offset + (cs.length : Int) else offset) = place
  by_cases empty : length ≤ 0 ∨ place = cs.length
  · rw [if_pos empty, if_pos (show (place < 0 ∨ (cs.length : Int) ≤ place) ∨ length ≤ 0 by omega),
      if_pos empty.symm]
    exact ⟨_, rfl, emptyString_spells, nofun⟩
  rw [if_neg empty]
  by_cases outside : place < 0 ∨ (cs.length : Int) < place
  · rw [if_pos outside, if_pos (show (place < 0 ∨ (cs.length : Int) ≤ place) ∨ length ≤ 0 by omega),
      if_neg (fun other => empty other.symm)]
    rfl
  rw [if_neg outside,
    if_neg (show ¬((place < 0 ∨ (cs.length : Int) ≤ place) ∨ length ≤ 0) by omega)]
  by_cases whole : place = 0 ∧ (cs.length : Int) ≤ length
  · rw [if_pos whole, whole.1]
    refine ⟨.whole, rfl, ?_, nofun⟩
    rw [Int.toNat_zero, drop_zero, take_of_length_le (by omega)]
    exact spells
  · rw [if_neg whole]
    exact cut _ _ (by omega) (by omega)

theorem encodingSubstr_shows : Shows order seed src (encodingSubstr order src offset length)
      (substrCodes cs offset length) := by
  apply substrAround_shows spells
  intro offset length inside _
  have skipped : startIter order src offset = .ok (stringIterAt order src.encoding cs offset) := by
    unfold startIter
    by_cases start : offset = 0
    · subst start
      rfl
    have moved := iterSkipOf_at spells (show (0 : Int) ≤ (0 : Nat) + (offset : Int) by omega)
      (Nat.zero_le _) (show ((0 : Nat) : Int) + offset ≤ cs.length by omega)
    have target : (((0 : Nat) : Int) + (offset : Int)).toNat = offset := by omega
    rw [if_pos start]
    rw [target] at moved
    exact moved
  rw [skipped, Except.ok_bind]
  simp only [spells.strlen]
  by_cases rest : cs.length - offset ≤ length
  · rw [if_pos rest]
    have shown := part_shows spells (show offset + (cs.length - offset) ≤ cs.length by omega)
    have last : offset + (cs.length - offset) = cs.length := by omega
    have remaining : (cs.drop offset).length ≤ length := by
      rw [length_drop]
      exact rest
    rw [last, WordCode.boundary_length, ← spells.bytes, take_of_length_le length_drop.le] at shown
    rw [take_of_length_le remaining]
    exact shown
  have moved := @iterSkipOf_at order seed src cs spells offset length (by omega) (by omega)
    (by omega)
  have target : ((offset : Int) + (length : Int)).toNat = offset + length := by omega
  rw [target] at moved
  rw [if_neg rest, moved, Except.ok_bind]
  exact part_shows spells (by omega)

theorem fixedSubstr_shows
    (fixed : ∀ c, (src.encoding.spell order c).length = src.encoding.maxBytesPerCodepoint)
    (offset length : Int) :
    Shows order seed src (fixedSubstr src offset length) (substrCodes cs offset length) := by
  apply substrAround_shows spells
  intro offset length inside _
  have least : (if cs.length - offset < length then cs.length - offset else length) =
      min length (cs.length - offset) := by
    split <;> omega
  have shown := part_shows spells
    (show offset + min length (cs.length - offset) ≤ cs.length by omega)
  rw [boundary_fixed fixed cs (by omega), boundary_fixed fixed cs (by omega), add_mul,
    Nat.add_sub_cancel_left] at shown
  simp only [spells.strlen, least]
  have same : (cs.drop offset).take length =
      (cs.drop offset).take (min length (cs.length - offset)) := by
    rw [← length_drop, ← take_take, take_length]
  rw [same]
  exact shown

theorem stringSubstr_shows : Shows order seed src (stringSubstr order src offset length)
      (substrCodes cs offset length) := by
  unfold stringSubstr
  cases encoding : src.encoding with
  | ascii => exact fixedSubstr_shows spells (by rw [encoding]; intro c; rfl) offset length
  | latin1 | binary => exact fixedSubstr_shows spells (by rw [encoding]; intro c; rfl) offset length
  | utf8 | utf16 => exact encodingSubstr_shows spells offset length
  | ucs2 =>
    exact fixedSubstr_shows spells (by rw [encoding]; exact length_spell_ucs2 order) offset length
  | ucs4 =>
    exact fixedSubstr_shows spells (by rw [encoding]; exact length_spell_ucs4 order) offset length

end

end

end RakudoStar.Strings
