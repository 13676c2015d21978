import RakudoStar.Strings.Utf16
import RakudoStar.Strings.Utf8

/-!
# Exact codecs

What the encoder, the decoder, the skip functions, the scanner and the iterators of UTF-8 and
UTF-16 owe each other, for every code point and byte string.
-/

namespace RakudoStar.Strings

open Foundation List RakudoStar.Except

structure StringIter where
  bytepos : Nat
  charpos : Nat
  deriving DecidableEq, Repr

def StringIter.init : StringIter := ⟨0, 0⟩

variable {U : Type}

section

def movePointer (forward backward : List U → Nat → Nat → Except Fault Nat) (units : List U)
    (ptr : Nat) (offset : Int) : Except Fault Nat :=
  if 0 < offset then forward units ptr offset.toNat
  else if offset < 0 then backward units ptr (-offset).toNat
  else .ok ptr

/-- The body of `utf8_iter_get` and `utf16_iter_get`, for units of `width` bytes. -/
def iterGet (decode : List U → Nat → Except Fault Nat)
    (forward backward : List U → Nat → Nat → Except Fault Nat) (width : Nat) (units : List U)
    (i : StringIter) (offset : Int) : Except Fault Nat := do
  let ptr ← movePointer forward backward units (i.bytepos / width) offset
  decode units ptr

/-- The body of `utf8_iter_skip` and `utf16_iter_skip`. -/
def iterSkip (forward backward : List U → Nat → Nat → Except Fault Nat) (width : Nat)
    (units : List U) (i : StringIter) (skip : Int) : Except Fault StringIter := do
  let ptr ← movePointer forward backward units (i.bytepos / width) skip
  .ok ⟨width * ptr, (i.charpos + skip).toNat⟩

/-- The body for UTF-8 and UTF-16; `size` is what a first unit tells. -/
def iterGetAndAdvance (decode : List U → Nat → Except Fault Nat) (size : U → Nat) (width : Nat)
    (units : List U) (i : StringIter) : Except Fault (Nat × StringIter) := do
  let c ← decode units (i.bytepos / width)
  let unit ← read units (i.bytepos / width)
  .ok (c, ⟨i.bytepos + size unit, i.charpos + 1⟩)

end

def utf8IterGet : List UInt8 → StringIter → Int → Except Fault Nat :=
  iterGet utf8Decode utf8SkipForward utf8SkipBackward 1

def utf8IterSkip : List UInt8 → StringIter → Int → Except Fault StringIter :=
  iterSkip utf8SkipForward utf8SkipBackward 1

def utf8IterGetAndAdvance : List UInt8 → StringIter → Except Fault (Nat × StringIter) :=
  iterGetAndAdvance utf8Decode utf8Skip 1

def utf16IterGet (order : ByteOrder) (str : List UInt8) : StringIter → Int → Except Fault Nat :=
  iterGet utf16Decode utf16SkipForward utf16SkipBackward 2 (unitsOf order str)

def utf16IterSkip (order : ByteOrder) (str : List UInt8) :
    StringIter → Int → Except Fault StringIter :=
  iterSkip utf16SkipForward utf16SkipBackward 2 (unitsOf order str)

def utf16IterGetAndAdvance (order : ByteOrder) (str : List UInt8) :
    StringIter → Except Fault (Nat × StringIter) :=
  iterGetAndAdvance utf16Decode (fun unit => if isHighSurrogate unit.toNat then 4 else 2) 2
    (unitsOf order str)

/-- The loop `while (iter.charpos < len) c = get_and_advance(str, &iter)`: the code
points it sees. -/
def iterateAll (getAndAdvance : StringIter → Except Fault (Nat × StringIter)) :
    Nat → StringIter → Except Fault (List Nat × StringIter)
  | 0, i => .ok ([], i)
  | count + 1, i => do
    let (c, i) ← getAndAdvance i
    let (cs, i) ← iterateAll getAndAdvance count i
    .ok (c :: cs, i)

/-- A word for every character, read back in any surroundings; no other code point. -/
structure ExactCodec {U : Type} (encode : Nat → Except Fault (List U))
    (decode : List U → Nat → Except Fault Nat)
    (forward backward : List U → Nat → Nat → Except Fault Nat) : Prop where
  characters : ∀ c, IsCharacter c → ∃ word, encode c = .ok word ∧ ∀ before after,
    decode (before ++ word ++ after) before.length = .ok c ∧
      forward (before ++ word ++ after) before.length 1 = .ok (before.length + word.length) ∧
      backward (before ++ word ++ after) (before.length + word.length) 1 = .ok before.length
  others : ∀ c, ¬IsCharacter c → ∃ message, encode c = .error (.thrown .invalidCharacter message)

/-- The bytes are the encodings of these characters, one after the other. -/
def IsEncodingOf {U : Type} (encode : Nat → Except Fault (List U)) (toBytes : List U → List UInt8)
    (cs : List Nat) (bytes : List UInt8) : Prop :=
  (∀ c ∈ cs, IsCharacter c) ∧ ∃ words, cs.mapM encode = .ok words ∧ bytes = toBytes words.flatten

/-- It accepts exactly the concatenations of encodings, without a read outside. -/
structure ExactScan {U : Type} (encode : Nat → Except Fault (List U))
    (toBytes : List U → List UInt8) (scan : List UInt8 → Except Fault Nat) : Prop where
  accepts : ∀ bytes n, scan bytes = .ok n ↔
    ∃ cs, IsEncodingOf encode toBytes cs bytes ∧ cs.length = n
  inside : ∀ bytes position, scan bytes ≠ .error (.outside position)

/-- Iterating an accepted string sees its characters, without a read outside. -/
def ExactIteration {U : Type} (encode : Nat → Except Fault (List U))
    (toBytes : List U → List UInt8) (scan : List UInt8 → Except Fault Nat)
    (get : List UInt8 → StringIter → Int → Except Fault Nat)
    (skip : List UInt8 → StringIter → Int → Except Fault StringIter)
    (getAndAdvance : List UInt8 → StringIter → Except Fault (Nat × StringIter)) : Prop :=
  ∀ bytes n, scan bytes = .ok n → ∃ cs, IsEncodingOf encode toBytes cs bytes ∧ cs.length = n ∧
      iterateAll (getAndAdvance bytes) n .init = .ok (cs, ⟨bytes.length, n⟩) ∧
      ∀ (k : Nat) (offset : Int), k ≤ n → 0 ≤ k + offset → k + offset ≤ n →
        ∃ here there : StringIter, skip bytes .init k = .ok here ∧
          skip bytes here offset = .ok there ∧ here.charpos = k ∧ there.charpos = k + offset ∧
          here.bytepos ≤ bytes.length ∧ there.bytepos ≤ bytes.length ∧
          ∀ inside : (k + offset).toNat < cs.length,
            get bytes here offset = .ok cs[(k + offset).toNat]

section

variable {code : WordCode Nat U} (cursor : Cursor Fault code) {symbols : List Nat}

/-- The iterator before character number `k`. -/
def iterAt (code : WordCode Nat U) (width : Nat) (symbols : List Nat) (k : Nat) : StringIter :=
  ⟨width * code.boundary symbols k, k⟩

variable {width : Nat} (positive : 0 < width) {k : Nat} {offset : Int}
include positive

theorem iterAt_pointer (k : Nat) :
    (iterAt code width symbols k).bytepos / width = code.boundary symbols k :=
  Nat.mul_div_cancel_left _ positive

omit positive in
include cursor in
theorem movePointer_boundary (valid : code.AllValid symbols)
    (low : 0 ≤ k + offset) (here : k ≤ symbols.length) (high : k + offset ≤ symbols.length) :
    movePointer cursor.forward cursor.backward (code.text symbols) (code.boundary symbols k)
        offset = .ok (code.boundary symbols (k + offset).toNat) := by
  unfold movePointer
  by_cases ahead : 0 < offset
  · have target : (k + offset).toNat = k + offset.toNat := by omega
    rw [if_pos ahead, cursor.forward_boundary valid (by omega), target]
  by_cases behind : offset < 0
  · have source : k = (k + offset).toNat + (-offset).toNat := by omega
    rw [if_neg ahead, if_pos behind]
    conv_lhs => rw [source]
    exact cursor.backward_boundary valid (by omega)
  · have target : (k + offset).toNat = k := by omega
    rw [if_neg ahead, if_neg behind, target]

include cursor in
theorem iterSkip_boundary (valid : code.AllValid symbols)
    (low : 0 ≤ k + offset) (here : k ≤ symbols.length) (high : k + offset ≤ symbols.length) :
    iterSkip cursor.forward cursor.backward width (code.text symbols)
        (iterAt code width symbols k) offset =
      .ok (iterAt code width symbols (k + offset).toNat) := by
  rw [iterSkip, iterAt_pointer positive, movePointer_boundary cursor valid low here high, ok_bind]
  rfl

include cursor in
theorem iterGet_boundary (valid : code.AllValid symbols)
    (low : 0 ≤ k + offset) (here : k ≤ symbols.length)
    (inside : (k + offset).toNat < symbols.length) :
    iterGet cursor.get cursor.forward cursor.backward width (code.text symbols)
        (iterAt code width symbols k) offset = .ok symbols[(k + offset).toNat] := by
  rw [iterGet, iterAt_pointer positive,
    movePointer_boundary cursor valid low here (by omega), ok_bind]
  exact cursor.get_boundary valid inside

variable {skip size : U → Nat}
  (next_eq : ∀ units p, cursor.next units p = read units p >>= fun unit => .ok (p + skip unit))
  (size_eq : ∀ unit, size unit = width * skip unit)

include next_eq size_eq in
theorem iterGetAndAdvance_boundary (valid : code.AllValid symbols) (inside : k < symbols.length) :
    iterGetAndAdvance cursor.get size width (code.text symbols) (iterAt code width symbols k) =
      .ok (symbols[k], iterAt code width symbols (k + 1)) := by
  have moved := cursor.next_boundary valid inside
  rw [next_eq] at moved
  obtain ⟨unit, found, arrived⟩ := of_bind moved
  rw [iterGetAndAdvance, iterAt_pointer positive, cursor.get_boundary valid inside,
    ok_bind, found, ok_bind, iterAt, iterAt, ← Except.ok.inj arrived, size_eq, mul_add]

include next_eq size_eq in
theorem iterateAll_boundary (valid : code.AllValid symbols) {count : Nat}
    (total : k + count = symbols.length) :
    iterateAll (iterGetAndAdvance cursor.get size width (code.text symbols)) count
        (iterAt code width symbols k) =
      .ok (symbols.drop k, iterAt code width symbols symbols.length) := by
  induction count generalizing k with
  | zero =>
    have last : k = symbols.length := total
    subst last
    rw [iterateAll, drop_length]
  | succ count ih =>
    have inside : k < symbols.length := by omega
    rw [iterateAll, iterGetAndAdvance_boundary cursor positive next_eq size_eq valid inside,
      ok_bind]
    simp only
    rw [ih (by omega), ok_bind, drop_eq_getElem_cons inside]

end

section

variable {encode : Nat → Except Fault (List U)} {spell : Nat → List U}
  (encode_eq : ∀ {c}, IsCharacter c → encode c = .ok (spell c)) {cs : List Nat}
include encode_eq

theorem mapM_encode (valid : ∀ c ∈ cs, IsCharacter c) : cs.mapM encode = .ok (cs.map spell) := by
  induction cs with
  | nil => rfl
  | cons c cs ih =>
    rw [mapM_cons, encode_eq (valid c mem_cons_self), ok_bind, ih (forall_mem_cons.mp valid).2]
    rfl

theorem isEncodingOf_iff {toBytes : List U → List UInt8} {bytes : List UInt8} :
    IsEncodingOf encode toBytes cs bytes ↔
      (∀ c ∈ cs, IsCharacter c) ∧ bytes = toBytes (cs.flatMap spell) := by
  constructor
  · rintro ⟨valid, words, encoded, rfl⟩
    rw [mapM_encode encode_eq valid] at encoded
    cases encoded
    exact ⟨valid, congrArg toBytes flatMap_def.symm⟩
  · rintro ⟨valid, rfl⟩
    exact ⟨valid, _, mapM_encode encode_eq valid, congrArg toBytes flatMap_def⟩

end

theorem utf8_exactCodec : ExactCodec utf8Encode utf8Decode utf8SkipForward utf8SkipBackward where
  characters c valid := by
    refine ⟨utf8Word c, utf8Encode_eq valid, fun before after => ⟨?_, ?_, ?_⟩⟩
    · exact utf8Decode_word before after valid
    · exact utf8Cursor.forward_spell before after valid
    · exact utf8Cursor.backward_spell before after valid
  others c invalid := ⟨_, utf8Encode_throws invalid⟩

theorem utf8Scan_eq (bytes : List UInt8) : utf8Scan bytes =
      scanLoop (utf8Round bytes bytes.length) bytes.length bytes.length (-1) bytes.length 0 0 (-1)
        >>= fun stop =>
          if stop.i ≠ bytes.length then
            .error (.thrown .malformedUtf8 "Unaligned end in UTF-8 string\n")
          else .ok stop.chars := by
  unfold utf8Scan utf8PartialScan
  simp only [maxCharsOf]
  rw [if_pos (by decide)]
  cases scanLoop (utf8Round bytes bytes.length) bytes.length bytes.length (-1) bytes.length 0 0
    (-1) <;> rfl

theorem utf8Scan_eq_ok_iff (bytes : List UInt8) (n : Nat) : utf8Scan bytes = .ok n ↔
      ∃ cs, utf8Code.AllValid cs ∧ bytes = utf8Code.text cs ∧ cs.length = n := by
  have recognises := utf8Round_recognises (le_refl bytes.length)
  rw [utf8Scan_eq]
  constructor
  · intro run
    obtain ⟨stop, looped, stored⟩ := of_bind run
    split at stored
    · cases stored
    rename_i complete
    obtain ⟨cs, valid, whole, count⟩ :=
      recognises.scanAll_sound looped (Decidable.not_not.mp complete)
    exact ⟨cs, valid, whole, count.symm.trans (Except.ok.inj stored)⟩
  · rintro ⟨cs, valid, whole, rfl⟩
    obtain ⟨c, run⟩ := recognises.scanAll_complete valid whole
    rw [run, ok_bind, if_neg (not_not_intro rfl)]

theorem utf8_exactScan : ExactScan utf8Encode id utf8Scan where
  accepts bytes n := by
    rw [utf8Scan_eq_ok_iff]
    simp only [isEncodingOf_iff utf8Encode_eq, and_assoc]
    rfl
  inside bytes position := by
    rw [utf8Scan_eq]
    cases run : scanLoop (utf8Round bytes bytes.length) bytes.length bytes.length (-1)
        bytes.length 0 0 (-1) with
    | error fault =>
      intro impossible
      cases impossible
      exact (utf8Round_recognises le_rfl).scanLoop_inside _ run
    | ok stop =>
      rw [ok_bind]
      split
      · nofun
      · nofun

theorem exactIteration_of_cursor {code : WordCode Nat U} (cursor : Cursor Fault code)
    {width : Nat} (positive : 0 < width) {skip size : U → Nat}
    (next_eq : ∀ units p, cursor.next units p = read units p >>= fun unit => .ok (p + skip unit))
    (size_eq : ∀ unit, size unit = width * skip unit) {cs : List Nat}
    (valid : code.AllValid cs) {bytes : List UInt8}
    (length : bytes.length = width * (code.text cs).length) :
    iterateAll (iterGetAndAdvance cursor.get size width (code.text cs)) cs.length .init =
        .ok (cs, ⟨bytes.length, cs.length⟩) ∧
      ∀ (k : Nat) (offset : Int), k ≤ cs.length → 0 ≤ k + offset → k + offset ≤ cs.length →
        ∃ here there : StringIter,
          iterSkip cursor.forward cursor.backward width (code.text cs) .init k = .ok here ∧
          iterSkip cursor.forward cursor.backward width (code.text cs) here offset = .ok there ∧
          here.charpos = k ∧ there.charpos = k + offset ∧
          here.bytepos ≤ bytes.length ∧ there.bytepos ≤ bytes.length ∧
          ∀ inside : (k + offset).toNat < cs.length,
            iterGet cursor.get cursor.forward cursor.backward width (code.text cs) here offset =
              .ok cs[(k + offset).toNat] := by
  have start : StringIter.init = iterAt code width cs 0 := rfl
  have bounded : ∀ k, (iterAt code width cs k).bytepos ≤ bytes.length := by
    intro k
    rw [length]
    exact Nat.mul_le_mul_left width (WordCode.boundary_le_length cs k)
  constructor
  · have run := iterateAll_boundary cursor positive next_eq size_eq valid (zero_add cs.length)
    rw [start, run, drop_zero, iterAt, WordCode.boundary_length, length]
  intro k offset here low high
  refine ⟨iterAt code width cs k, iterAt code width cs (k + offset).toNat, ?_, ?_, rfl, ?_,
    bounded _, bounded _, ?_⟩
  · have target : ((0 : Nat) + (k : Int)).toNat = k := by omega
    rw [start, iterSkip_boundary cursor positive valid (by omega) (Nat.zero_le _) (by omega),
      target]
  · exact iterSkip_boundary cursor positive valid low here high
  · exact Int.toNat_of_nonneg low
  · intro inside
    exact iterGet_boundary cursor positive valid low here inside

theorem utf8_exactIteration :
    ExactIteration utf8Encode id utf8Scan utf8IterGet utf8IterSkip utf8IterGetAndAdvance := by
  intro bytes n accepted
  obtain ⟨cs, valid, rfl, rfl⟩ := (utf8Scan_eq_ok_iff bytes n).mp accepted
  refine ⟨cs, (isEncodingOf_iff utf8Encode_eq).mpr ⟨valid, rfl⟩, rfl, ?_⟩
  exact exactIteration_of_cursor utf8Cursor one_pos (fun _ _ => rfl)
    (fun _ => (one_mul _).symm) valid (one_mul _).symm

theorem utf16_exactCodec :
    ExactCodec utf16Encode utf16Decode utf16SkipForward utf16SkipBackward where
  characters c valid := by
    refine ⟨utf16Word c, utf16Encode_eq valid, fun before after => ⟨?_, ?_, ?_⟩⟩
    · exact utf16Decode_word before after valid
    · exact utf16Cursor.forward_spell before after valid
    · exact utf16Cursor.backward_spell before after valid
  others c invalid := ⟨_, utf16Encode_throws invalid⟩

theorem utf16Scan_eq (order : ByteOrder) (bytes : List UInt8) : utf16Scan order bytes =
      scanLoop (utf16Round (unitsOf order bytes) (unitsOf order bytes).length)
          (unitsOf order bytes).length (unitsOf order bytes).length (-1)
          (unitsOf order bytes).length 0 0 (-1) >>= fun stop =>
          if stop.i <<< 1 ≠ bytes.length then
            .error (.thrown .malformedUtf16 "Unaligned end in UTF-16 string\n")
          else .ok stop.chars := by
  have half : bytes.length >>> 1 = (unitsOf order bytes).length := by
    rw [length_unitsOf, Nat.shiftRight_eq_div_pow]
  unfold utf16Scan utf16PartialScan
  simp only [maxCharsOf, half]
  rw [if_pos (by decide)]
  cases scanLoop (utf16Round (unitsOf order bytes) (unitsOf order bytes).length)
    (unitsOf order bytes).length (unitsOf order bytes).length (-1)
    (unitsOf order bytes).length 0 0 (-1) <;> rfl

theorem utf16Scan_eq_ok_iff (order : ByteOrder) (bytes : List UInt8) (n : Nat) :
    utf16Scan order bytes = .ok n ↔
      ∃ cs, utf16Code.AllValid cs ∧ bytes = bytesOf order (utf16Code.text cs) ∧ cs.length = n := by
  have recognises := utf16Round_recognises (le_refl (unitsOf order bytes).length)
  rw [utf16Scan_eq]
  constructor
  · intro run
    obtain ⟨stop, looped, stored⟩ := of_bind run
    split at stored
    · cases stored
    rename_i complete
    have doubled : stop.i <<< 1 = bytes.length := Decidable.not_not.mp complete
    rw [Nat.shiftLeft_eq] at doubled
    have even : bytes.length % 2 = 0 := by omega
    have last : stop.i = (unitsOf order bytes).length := by
      rw [length_unitsOf]
      omega
    obtain ⟨cs, valid, whole, count⟩ := recognises.scanAll_sound looped last
    refine ⟨cs, valid, ?_, count.symm.trans (Except.ok.inj stored)⟩
    rw [← whole, bytesOf_unitsOf order bytes even]
  rintro ⟨cs, valid, rfl, rfl⟩
  rw [unitsOf_bytesOf] at recognises ⊢
  obtain ⟨c, run⟩ := recognises.scanAll_complete valid rfl
  have doubled : (utf16Code.text cs).length <<< 1 =
      (bytesOf order (utf16Code.text cs)).length := by
    rw [length_bytesOf, Nat.shiftLeft_eq, mul_comm]
  rw [run, ok_bind, if_neg (not_not_intro doubled)]

theorem utf16_exactScan (order : ByteOrder) :
    ExactScan utf16Encode (bytesOf order) (utf16Scan order) where
  accepts bytes n := by
    rw [utf16Scan_eq_ok_iff]
    simp only [isEncodingOf_iff utf16Encode_eq, and_assoc]
    rfl
  inside bytes position := by
    rw [utf16Scan_eq]
    cases run : scanLoop (utf16Round (unitsOf order bytes) (unitsOf order bytes).length)
        (unitsOf order bytes).length (unitsOf order bytes).length (-1)
        (unitsOf order bytes).length 0 0 (-1) with
    | error fault =>
      intro impossible
      cases impossible
      exact (utf16Round_recognises le_rfl).scanLoop_inside _ run
    | ok stop =>
      rw [ok_bind]
      split
      · nofun
      · nofun

theorem utf16_exactIteration (order : ByteOrder) :
    ExactIteration utf16Encode (bytesOf order) (utf16Scan order) (utf16IterGet order)
      (utf16IterSkip order) (utf16IterGetAndAdvance order) := by
  intro bytes n accepted
  obtain ⟨cs, valid, rfl, rfl⟩ := (utf16Scan_eq_ok_iff order bytes n).mp accepted
  refine ⟨cs, (isEncodingOf_iff utf16Encode_eq).mpr ⟨valid, rfl⟩, rfl, ?_⟩
  have size_eq : ∀ unit : UInt16,
      (if isHighSurrogate unit.toNat then 4 else 2) = 2 * utf16Skip unit.toNat := by
    intro unit
    unfold utf16Skip
    split <;> rfl
  have exact := exactIteration_of_cursor utf16Cursor (show 0 < 2 by decide) (fun _ _ => rfl)
    size_eq valid (length_bytesOf order (utf16Code.text cs))
  unfold utf16IterGetAndAdvance utf16IterSkip utf16IterGet
  rw [unitsOf_bytesOf]
  exact exact

/-- The codecs of UTF-8 and UTF-16 are exact: encoders and decoders are inverse on the
characters and the encoders throw elsewhere, the scanners accept the encodings of
character lists and nothing else, and iterators see those characters. -/
theorem unicode_codecs_exact : (ExactCodec utf8Encode utf8Decode utf8SkipForward utf8SkipBackward ∧
        ExactScan utf8Encode id utf8Scan ∧
        ExactIteration utf8Encode id utf8Scan utf8IterGet utf8IterSkip utf8IterGetAndAdvance) ∧
      ExactCodec utf16Encode utf16Decode utf16SkipForward utf16SkipBackward ∧
      ∀ order, ExactScan utf16Encode (bytesOf order) (utf16Scan order) ∧
        ExactIteration utf16Encode (bytesOf order) (utf16Scan order) (utf16IterGet order)
          (utf16IterSkip order) (utf16IterGetAndAdvance order) :=
  ⟨⟨utf8_exactCodec, utf8_exactScan, utf8_exactIteration⟩, utf16_exactCodec,
    fun order => ⟨utf16_exactScan order, utf16_exactIteration order⟩⟩

end RakudoStar.Strings
