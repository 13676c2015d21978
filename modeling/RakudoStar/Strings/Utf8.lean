import Mathlib.Data.List.Induction
import RakudoStar.Strings.Scan

/-!
# UTF-8

The functions of `utf8.c`. Pointers are positions in the bytes, and the encoder gives the bytes
it writes. The words of the code are stated by their length class; encoder, decoder, skip
functions and scan agree on them.
-/

namespace RakudoStar.Strings

open Foundation List RakudoStar.Except Option

/-- The loop of `utf8_decode` over the continuation bytes. -/
def utf8DecodeLoop (units : List UInt8) : Nat → Nat → Nat → Except Fault Nat
  | 0, _, c => .ok c
  | count + 1, u8ptr, c => do
    let byte ← read units (u8ptr + 1)
    utf8DecodeLoop units count (u8ptr + 1) (accumulate c byte.toNat)

def utf8Decode (units : List UInt8) (ptr : Nat) : Except Fault Nat := do
  let byte ← read units ptr
  if isStart byte.toNat then
    let len := utf8Skip byte
    utf8DecodeLoop units (len - 1) ptr (byte.toNat &&& startMask len)
  else .ok byte.toNat

/-- The loop of `utf8_encode`, from the last byte down to the second. -/
def utf8EncodeLoop : Nat → Nat → List UInt8 → Nat × List UInt8
  | 0, c, written => (c, written)
  | count + 1, c, written =>
    utf8EncodeLoop count (c >>> 6) (UInt8.ofNat ((c &&& 0x3F) ||| 0x80) :: written)

def utf8Encode (c : Nat) : Except Fault (List UInt8) :=
  if c < 0x80 then .ok [UInt8.ofNat c]
  else if isInvalid c then
    .error (.thrown .invalidCharacter "Invalid character for UTF-8 encoding\n")
  else
    let len := uniSkip c
    let (high, tail) := utf8EncodeLoop (len - 1) c []
    .ok (UInt8.ofNat (high ||| startMark len) :: tail)

/-- One step of `utf8_skip_forward`. -/
def utf8Next (units : List UInt8) (ptr : Nat) : Except Fault Nat := do
  let byte ← read units ptr
  .ok (ptr + utf8Skip byte)

def utf8SkipForward (units : List UInt8) (ptr n : Nat) : Except Fault Nat :=
  times (utf8Next units) n ptr

/-- The inner loop of `utf8_skip_backward`: back over the continuation bytes. -/
def utf8BackToStart (units : List UInt8) : Nat → Except Fault Nat
  | 0 => do
    let byte ← read units 0
    if isContinuation byte.toNat then .error (.outside 0) else .ok 0
  | ptr + 1 => do
    let byte ← read units (ptr + 1)
    if isContinuation byte.toNat then utf8BackToStart units ptr else .ok (ptr + 1)

/-- One step of `utf8_skip_backward`. -/
def utf8Prev (units : List UInt8) : Nat → Except Fault Nat
  | 0 => .error (.outside 0)
  | ptr + 1 => utf8BackToStart units ptr

def utf8SkipBackward (units : List UInt8) (ptr n : Nat) : Except Fault Nat :=
  times (utf8Prev units) n ptr

/-- The continuation bytes of a character that `utf8_partial_scan` looks at. -/
def utf8ScanRest (p : List UInt8) : Nat → Nat → Nat → Except Fault Nat
  | 0, _, c => .ok c
  | count + 1, i, c => do
    let byte ← read p (i + 1)
    if isContinuation byte.toNat then utf8ScanRest p count (i + 1) (accumulate c byte.toNat)
    else .error (.thrown .malformedUtf8 "Malformed UTF-8 string\n")

/-- One round of the loop of `utf8_partial_scan`. -/
def utf8Round (p : List UInt8) (len i : Nat) : Except Fault ScanRound := do
  let lead ← read p i
  let c := lead.toNat
  if isStart c then
    let len2 := utf8Skip lead
    if len < i + len2 then .ok (.short c (i + len2 - len))
    else
      let second ← read p (i + 1)
      if isOverlong c second.toNat then
        .error (.thrown .malformedUtf8 "Overlong form in UTF-8 string\n")
      else
        let c ← utf8ScanRest p (len2 - 1) i (c &&& startMask len2)
        if isInvalid c then
          .error (.thrown .invalidCharacter "Invalid character in UTF-8 string\n")
        else .ok (.char c (i + (len2 - 1)))
  else if isInvariant c then .ok (.char c i)
  else .error (.thrown .malformedUtf8 "Malformed UTF-8 string\n")

/-- `utf8_partial_scan`: its result and the bounds it leaves. -/
def utf8PartialScan (buf : List UInt8) (bounds : Bounds) : Except Fault (Nat × Bounds) := do
  let len := bounds.bytes
  let stop ← scanLoop (utf8Round buf len) len (maxCharsOf bounds.chars len) bounds.delim len 0 0
    (-1)
  .ok (stop.res, ⟨stop.i, stop.chars, stop.c⟩)

/-- `utf8_scan`: the length it stores in the string. -/
def utf8Scan (src : List UInt8) : Except Fault Nat := do
  let (_, bounds) ← utf8PartialScan src ⟨src.length, -1, -1⟩
  if bounds.bytes ≠ src.length then
    .error (.thrown .malformedUtf8 "Unaligned end in UTF-8 string\n")
  else .ok bounds.chars.toNat

/-- The bytes of a code point, by its length class. -/
def utf8Word (c : Nat) : List UInt8 :=
  if c < 0x80 then [UInt8.ofNat c]
  else if c < 0x800 then [UInt8.ofNat (0xC0 + c / 64), UInt8.ofNat (0x80 + c % 64)]
  else if c < 0x10000 then
    [UInt8.ofNat (0xE0 + c / 64 / 64), UInt8.ofNat (0x80 + c / 64 % 64),
      UInt8.ofNat (0x80 + c % 64)]
  else
    [UInt8.ofNat (0xF0 + c / 64 / 64 / 64), UInt8.ofNat (0x80 + c / 64 / 64 % 64),
      UInt8.ofNat (0x80 + c / 64 % 64), UInt8.ofNat (0x80 + c % 64)]

theorem utf8Word_ne_nil (c : Nat) : utf8Word c ≠ [] := by
  unfold utf8Word
  split
  · exact cons_ne_nil _ _
  split
  · exact cons_ne_nil _ _
  · split <;> exact cons_ne_nil _ _

def utf8Code : WordCode Nat UInt8 where
  Valid := IsCharacter
  spell := utf8Word
  spell_ne_nil := fun _ => utf8Word_ne_nil _

variable {c len position i n : Nat} {lead : UInt8}

theorem utf8Word_one (small : c < 0x80) : utf8Word c = [UInt8.ofNat c] := by
  rw [utf8Word, if_pos small]

theorem utf8Word_two (low : 0x80 ≤ c) (high : c < 0x800) :
    utf8Word c = [UInt8.ofNat (0xC0 + c / 64), UInt8.ofNat (0x80 + c % 64)] := by
  rw [utf8Word, if_neg (by omega), if_pos high]

theorem utf8Word_three (low : 0x800 ≤ c) (high : c < 0x10000) :
    utf8Word c = [UInt8.ofNat (0xE0 + c / 64 / 64), UInt8.ofNat (0x80 + c / 64 % 64),
      UInt8.ofNat (0x80 + c % 64)] := by
  rw [utf8Word, if_neg (by omega), if_neg (by omega), if_pos high]

theorem utf8Word_four (low : 0x10000 ≤ c) :
    utf8Word c = [UInt8.ofNat (0xF0 + c / 64 / 64 / 64), UInt8.ofNat (0x80 + c / 64 / 64 % 64),
      UInt8.ofNat (0x80 + c / 64 % 64), UInt8.ofNat (0x80 + c % 64)] := by
  rw [utf8Word, if_neg (by omega), if_neg (by omega), if_neg (by omega)]

theorem IsCharacter.lengthClass (valid : IsCharacter c) :
    c < 0x80 ∨ (0x80 ≤ c ∧ c < 0x800) ∨ (0x800 ≤ c ∧ c < 0x10000) ∨
      (0x10000 ≤ c ∧ c < 0x110000) := by
  have bound := valid.2.2.2
  omega

theorem shiftRight_six (c : Nat) : c >>> 6 = c / 64 := Nat.shiftRight_eq_div_pow c 6

theorem utf8Encode_eq (valid : IsCharacter c) : utf8Encode c = .ok (utf8Word c) := by
  have accepted := (isInvalid_eq_false_iff c).mpr valid
  rcases valid.lengthClass with one | ⟨low, high⟩ | ⟨low, high⟩ | ⟨low, high⟩
  · rw [utf8Encode, if_pos one, utf8Word_one one]
  · have len : uniSkip c = 2 := by rw [uniSkip, if_neg (by omega), if_pos high]
    have first := @startByte_eq (c / 64) 2 (by omega) (by omega)
      (Nat.div_lt_iff_lt_mul (by decide) |>.mpr high)
    simp only [utf8Encode, accepted, len, utf8EncodeLoop, continuationByte_eq,
      shiftRight_six, first,
      utf8Word_two low high, if_neg low.not_gt]
    simp [add_comm]
  · have len : uniSkip c = 3 := by
      rw [uniSkip, if_neg (by omega), if_neg (by omega), if_pos high]
    have first := @startByte_eq (c / 64 / 64) 3 (by omega) (by omega)
      (show c / 64 / 64 < 16 by omega)
    simp only [utf8Encode, accepted, len, utf8EncodeLoop, continuationByte_eq,
      shiftRight_six, first,
      utf8Word_three low high, if_neg (show ¬c < 0x80 by omega)]
    simp [add_comm]
  have len : uniSkip c = 4 := by
    rw [uniSkip, if_neg (by omega), if_neg (by omega), if_neg (by omega)]
  have first := @startByte_eq (c / 64 / 64 / 64) 4 (by omega) (by omega)
    (show c / 64 / 64 / 64 < 8 by omega)
  simp only [utf8Encode, accepted, len, utf8EncodeLoop, continuationByte_eq, shiftRight_six, first,
    utf8Word_four low, if_neg (show ¬c < 0x80 by omega)]
  simp [add_comm]

theorem utf8Encode_throws (invalid : ¬IsCharacter c) :
    utf8Encode c = .error (.thrown .invalidCharacter "Invalid character for UTF-8 encoding\n") := by
  have large : ¬c < 0x80 := by
    intro small
    apply invalid
    unfold IsCharacter
    omega
  have rejected : isInvalid c = true := by
    cases verdict : isInvalid c with
    | true => rfl
    | false => exact absurd ((isInvalid_eq_false_iff c).mp verdict) invalid
  rw [utf8Encode, if_neg large, if_pos rejected]

/-- What the bytes of a form accumulate to. -/
def utf8Value (lead : UInt8) (tail : List UInt8) : Nat :=
  tail.foldl (fun old byte => accumulate old byte.toNat)
    (lead.toNat &&& startMask (tail.length + 1))

/-- A start byte with its continuation bytes, not overlong. -/
structure Utf8Form (lead : UInt8) (tail : List UInt8) : Prop where
  start : isStart lead.toNat = true
  size : utf8Skip lead = tail.length + 1
  continued : ∀ byte ∈ tail, isContinuation byte.toNat = true
  exact : ∀ second ∈ tail.head?, isOverlong lead.toNat second.toNat = false

theorem toNat_ofNat_of_lt (small : n < 256) : (UInt8.ofNat n).toNat = n := by
  rw [UInt8.toNat_ofNat']
  exact Nat.mod_eq_of_lt small

theorem toNat_continuation (n : Nat) : (UInt8.ofNat (0x80 + n % 64)).toNat = 0x80 + n % 64 :=
  toNat_ofNat_of_lt (by omega)

theorem isContinuation_continuation (n : Nat) :
    isContinuation (UInt8.ofNat (0x80 + n % 64)).toNat = true := by
  rw [toNat_continuation]
  exact (isContinuation_iff _ (by omega)).mpr (by omega)

theorem isOverlong_eq_false_iff (c1 c2 : Nat) :
    isOverlong c1 c2 = false ↔ (c1 = 0xE0 → 0xA0 ≤ c2) ∧ (c1 = 0xF0 → 0x90 ≤ c2) := by
  simp only [isOverlong, Bool.or_eq_false_iff, Bool.and_eq_false_iff, beq_eq_false_iff_ne,
    decide_eq_false_iff_not, ne_eq]
  omega

/-- The word of a code point beyond one byte is a form that stands for it. -/
theorem utf8Word_form (valid : IsCharacter c) (multi : 0x80 ≤ c) :
    ∃ lead tail, utf8Word c = lead :: tail ∧ Utf8Form lead tail ∧ utf8Value lead tail = c := by
  rcases valid.lengthClass with one | ⟨low, high⟩ | ⟨low, high⟩ | ⟨low, high⟩
  · omega
  · have lead : (UInt8.ofNat (0xC0 + c / 64)).toNat = 0xC0 + c / 64 := toNat_ofNat_of_lt (by omega)
    refine ⟨_, _, utf8Word_two low high, ⟨?_, ?_, ?_, ?_⟩, ?_⟩
    · rw [lead, isStart_iff]
      omega
    · rw [utf8Skip_eq, lead, if_neg (by omega), if_pos (by omega)]
      rfl
    · simp only [mem_singleton, forall_eq]
      exact isContinuation_continuation _
    · simp only [head?_cons, mem_def, some.injEq, forall_eq', lead, isOverlong_eq_false_iff]
      omega
    · simp only [utf8Value, foldl, length_singleton, accumulate_eq, lead,
        toNat_continuation, and_startMask _ (show 1 + 1 ≤ 4 by omega)]
      omega
  · have lead : (UInt8.ofNat (0xE0 + c / 64 / 64)).toNat = 0xE0 + c / 64 / 64 :=
      toNat_ofNat_of_lt (by omega)
    refine ⟨_, _, utf8Word_three low high, ⟨?_, ?_, ?_, ?_⟩, ?_⟩
    · rw [lead, isStart_iff]
      omega
    · rw [utf8Skip_eq, lead, if_neg (by omega), if_neg (by omega), if_pos (by omega)]
      rfl
    · simp only [mem_cons, not_mem_nil, or_false, forall_eq_or_imp, forall_eq]
      exact ⟨isContinuation_continuation _, isContinuation_continuation _⟩
    · simp only [head?_cons, mem_def, some.injEq, forall_eq', lead,
        toNat_continuation, isOverlong_eq_false_iff]
      omega
    · simp only [utf8Value, foldl, length_cons, length_nil, accumulate_eq, lead,
        toNat_continuation, and_startMask _ (show 0 + 1 + 1 + 1 ≤ 4 by omega)]
      omega
  · have lead : (UInt8.ofNat (0xF0 + c / 64 / 64 / 64)).toNat = 0xF0 + c / 64 / 64 / 64 :=
      toNat_ofNat_of_lt (by omega)
    refine ⟨_, _, utf8Word_four low, ⟨?_, ?_, ?_, ?_⟩, ?_⟩
    · rw [lead, isStart_iff]
      omega
    · rw [utf8Skip_eq, lead, if_neg (by omega), if_neg (by omega), if_neg (by omega),
        if_pos (by omega)]
      rfl
    · simp only [mem_cons, not_mem_nil, or_false, forall_eq_or_imp, forall_eq]
      exact ⟨isContinuation_continuation _, isContinuation_continuation _,
        isContinuation_continuation _⟩
    · simp only [head?_cons, mem_def, some.injEq, forall_eq', lead,
        toNat_continuation, isOverlong_eq_false_iff]
      omega
    · simp only [utf8Value, foldl, length_cons, length_nil, accumulate_eq, lead,
        toNat_continuation, and_startMask _ (show 0 + 1 + 1 + 1 + 1 ≤ 4 by omega)]
      omega

theorem utf8Skip_start (start : isStart lead.toNat = true) :
    (lead.toNat < 0xE0 ∧ utf8Skip lead = 2) ∨
      (0xE0 ≤ lead.toNat ∧ lead.toNat < 0xF0 ∧ utf8Skip lead = 3) ∨
      (0xF0 ≤ lead.toNat ∧ utf8Skip lead = 4) := by
  have range := (isStart_iff _).mp start
  rw [utf8Skip_eq, if_neg (by omega)]
  by_cases two : lead.toNat < 0xE0
  · rw [if_pos two]
    exact .inl ⟨two, rfl⟩
  by_cases three : lead.toNat < 0xF0
  · rw [if_neg two, if_pos three]
    exact .inr (.inl ⟨Nat.le_of_not_lt two, three, rfl⟩)
  · rw [if_neg two, if_neg three, if_pos (by omega)]
    exact .inr (.inr ⟨Nat.le_of_not_lt three, rfl⟩)

theorem ofNat_eq_of_toNat (byte : UInt8) (same : n = byte.toNat) : UInt8.ofNat n = byte := by
  rw [same, UInt8.ofNat_toNat]

theorem Utf8Form.word {tail : List UInt8} (form : Utf8Form lead tail)
    (valid : IsCharacter (utf8Value lead tail)) :
    utf8Word (utf8Value lead tail) = lead :: tail := by
  have start := (isStart_iff _).mp form.start
  have bytes : ∀ byte ∈ tail, 0x80 ≤ byte.toNat ∧ byte.toNat < 0xC0 := by
    intro byte member
    exact (isContinuation_iff _ byte.toNat_lt).mp (form.continued byte member)
  rcases utf8Skip_start form.start with ⟨high, skip⟩ | ⟨low, high, skip⟩ | ⟨low, skip⟩
  · have size : tail.length = 1 := by
      have total := form.size
      omega
    obtain ⟨second, rfl⟩ := length_eq_one_iff.mp size
    have range := bytes second (mem_singleton.mpr rfl)
    have value : utf8Value lead [second] = (lead.toNat - 0xC0) * 64 + (second.toNat - 0x80) := by
      simp only [utf8Value, foldl, length_singleton, accumulate_eq,
        and_startMask _ (show 1 + 1 ≤ 4 by omega)]
      omega
    rw [value, utf8Word_two (by omega) (by omega), ofNat_eq_of_toNat lead (by omega),
      ofNat_eq_of_toNat second (by omega)]
  · have size : tail.length = 2 := by
      have total := form.size
      omega
    obtain ⟨second, third, rfl⟩ := length_eq_two.mp size
    have range2 := bytes second mem_cons_self
    have range3 := bytes third (mem_cons_of_mem _ (mem_singleton.mpr rfl))
    have overlong := (isOverlong_eq_false_iff _ _).mp (form.exact second rfl)
    have value : utf8Value lead [second, third] =
        ((lead.toNat - 0xE0) * 64 + (second.toNat - 0x80)) * 64 + (third.toNat - 0x80) := by
      simp only [utf8Value, foldl, length_cons, length_nil, accumulate_eq,
        and_startMask _ (show 0 + 1 + 1 + 1 ≤ 4 by omega)]
      omega
    rw [value, utf8Word_three (by omega) (by omega), ofNat_eq_of_toNat lead (by omega),
      ofNat_eq_of_toNat second (by omega), ofNat_eq_of_toNat third (by omega)]
  · have size : tail.length = 3 := by
      have total := form.size
      omega
    obtain ⟨second, third, fourth, rfl⟩ := length_eq_three.mp size
    have range2 := bytes second mem_cons_self
    have range3 := bytes third (mem_cons_of_mem _ mem_cons_self)
    have range4 := bytes fourth (mem_cons_of_mem _ (mem_cons_of_mem _ (mem_singleton.mpr rfl)))
    have overlong := (isOverlong_eq_false_iff _ _).mp (form.exact second rfl)
    have value : utf8Value lead [second, third, fourth] =
        (((lead.toNat - 0xF0) * 64 + (second.toNat - 0x80)) * 64 + (third.toNat - 0x80)) * 64 +
          (fourth.toNat - 0x80) := by
      simp only [utf8Value, foldl, length_cons, length_nil, accumulate_eq,
        and_startMask _ (show 0 + 1 + 1 + 1 + 1 ≤ 4 by omega)]
      omega
    rw [value, utf8Word_four (by omega), ofNat_eq_of_toNat lead (by omega),
      ofNat_eq_of_toNat second (by omega), ofNat_eq_of_toNat third (by omega),
      ofNat_eq_of_toNat fourth (by omega)]

section

variable (before after : List UInt8) {c : Nat}

theorem utf8DecodeLoop_eq (units tail : List UInt8) (u8ptr c : Nat)
    (here : ∃ rest, units.drop (u8ptr + 1) = tail ++ rest) :
    utf8DecodeLoop units tail.length u8ptr c =
      .ok (tail.foldl (fun old byte => accumulate old byte.toNat) c) := by
  induction tail generalizing u8ptr c with
  | nil => rfl
  | cons byte tail ih =>
    obtain ⟨rest, drop⟩ := here
    have next : ∃ rest, units.drop (u8ptr + 1 + 1) = tail ++ rest := by
      refine ⟨rest, ?_⟩
      rw [← drop_drop, drop]
      rfl
    rw [length_cons, utf8DecodeLoop, read_of_drop drop, ok_bind, ih _ _ next]
    rfl

theorem utf8ScanRest_eq (units tail : List UInt8) (i c : Nat)
    (continued : ∀ byte ∈ tail, isContinuation byte.toNat = true)
    (here : ∃ rest, units.drop (i + 1) = tail ++ rest) : utf8ScanRest units tail.length i c =
      .ok (tail.foldl (fun old byte => accumulate old byte.toNat) c) := by
  induction tail generalizing i c with
  | nil => rfl
  | cons byte tail ih =>
    obtain ⟨rest, drop⟩ := here
    have next : ∃ rest, units.drop (i + 1 + 1) = tail ++ rest := by
      refine ⟨rest, ?_⟩
      rw [← drop_drop, drop]
      rfl
    have first := continued byte mem_cons_self
    rw [length_cons, utf8ScanRest, read_of_drop drop, ok_bind, if_pos first,
      ih _ _ (forall_mem_cons.mp continued).2 next]
    rfl

theorem utf8ScanRest_sound (units : List UInt8) (count i c value : Nat)
    (run : utf8ScanRest units count i c = .ok value) :
    ∃ tail, tail.length = count ∧ units.drop (i + 1) = tail ++ units.drop (i + 1 + count) ∧
      (∀ byte ∈ tail, isContinuation byte.toNat = true) ∧
        value = tail.foldl (fun old byte => accumulate old byte.toNat) c := by
  induction count generalizing i c with
  | zero =>
    cases run
    exact ⟨[], rfl, rfl, nofun, rfl⟩
  | succ count ih =>
    rw [utf8ScanRest] at run
    obtain ⟨byte, found, continued⟩ := of_bind run
    split at continued
    · rename_i continues
      obtain ⟨tail, size, drop, allContinue, result⟩ := ih _ _ continued
      refine ⟨byte :: tail, congrArg (· + 1) size, ?_, ?_, result⟩
      · have total : i + 1 + (count + 1) = i + 1 + 1 + count := by omega
        rw [drop_of_read found, drop, total]
        rfl
      intro other member
      cases member with
      | head => exact continues
      | tail _ member => exact allContinue other member
    · cases continued

theorem utf8Decode_word (valid : IsCharacter c) :
    utf8Decode (before ++ utf8Word c ++ after) before.length = .ok c := by
  by_cases one : c < 0x80
  · have byte : (UInt8.ofNat c).toNat = c := toNat_ofNat_of_lt (by omega)
    have single : isStart c = false := by
      cases start : isStart c with
      | false => rfl
      | true =>
        have range := (isStart_iff c).mp start
        omega
    rw [utf8Word_one one, append_assoc, singleton_append, utf8Decode,
      read_of_drop drop_left, ok_bind, byte, single]
    rfl
  obtain ⟨lead, tail, word, form, value⟩ := utf8Word_form valid (Nat.le_of_not_lt one)
  have here : (before ++ lead :: tail ++ after).drop before.length = lead :: (tail ++ after) := by
    rw [append_assoc, drop_left]
    rfl
  have next : ∃ rest, (before ++ lead :: tail ++ after).drop (before.length + 1) =
      tail ++ rest := by
    refine ⟨after, ?_⟩
    rw [← drop_drop, here]
    rfl
  have loop := utf8DecodeLoop_eq _ tail before.length (lead.toNat &&& startMask (tail.length + 1))
    next
  rw [word, utf8Decode, read_of_drop here, ok_bind, if_pos form.start]
  simp only [form.size, Nat.add_sub_cancel]
  rw [loop, ← value]
  rfl

theorem utf8Word_lead (valid : IsCharacter c) :
    ∃ lead tail, utf8Word c = lead :: tail ∧ utf8Skip lead = tail.length + 1 ∧
      isContinuation lead.toNat = false ∧ ∀ byte ∈ tail, isContinuation byte.toNat = true := by
  by_cases one : c < 0x80
  · have byte : (UInt8.ofNat c).toNat = c := toNat_ofNat_of_lt (by omega)
    refine ⟨UInt8.ofNat c, [], utf8Word_one one, ?_, ?_, ?_⟩
    · rw [utf8Skip_eq, byte, if_pos (by omega)]
      rfl
    · rw [byte]
      cases continues : isContinuation c with
      | false => rfl
      | true =>
        have range := (isContinuation_iff c (by omega)).mp continues
        omega
    · exact nofun
  obtain ⟨lead, tail, word, form, _⟩ := utf8Word_form valid (Nat.le_of_not_lt one)
  refine ⟨lead, tail, word, form.size, ?_, form.continued⟩
  have start := (isStart_iff _).mp form.start
  cases continues : isContinuation lead.toNat with
  | false => rfl
  | true =>
    have range := (isContinuation_iff _ lead.toNat_lt).mp continues
    omega

theorem utf8Next_word (valid : IsCharacter c) :
    utf8Next (before ++ utf8Word c ++ after) before.length =
      .ok (before.length + (utf8Word c).length) := by
  obtain ⟨lead, tail, word, size, _, _⟩ := utf8Word_lead valid
  have here : (before ++ lead :: tail ++ after).drop before.length = lead :: (tail ++ after) := by
    rw [append_assoc, drop_left]
    rfl
  rw [word, utf8Next, read_of_drop here, ok_bind, size, length_cons]

/-- Going back over continuation bytes ends at the byte before them. -/
theorem utf8BackToStart_word (units tail : List UInt8) (lead : UInt8) (position : Nat)
    (here : ∃ rest, units.drop position = lead :: (tail ++ rest))
    (first : isContinuation lead.toNat = false)
    (continued : ∀ byte ∈ tail, isContinuation byte.toNat = true) :
    utf8BackToStart units (position + tail.length) = .ok position := by
  induction tail using List.reverseRecOn with
  | nil =>
    obtain ⟨rest, drop⟩ := here
    cases position with
    | zero => rw [length_nil, utf8BackToStart, read_of_drop drop, ok_bind, first]; rfl
    | succ position =>
      rw [length_nil, add_zero, utf8BackToStart, read_of_drop drop, ok_bind, first]
      rfl
  | append_singleton tail byte ih =>
    obtain ⟨rest, drop⟩ := here
    have last : units.drop (position + (tail.length + 1)) = byte :: rest := by
      have whole : lead :: (tail ++ [byte] ++ rest) = (lead :: tail) ++ (byte :: rest) := by
        simp
      rw [← drop_drop, drop, whole, ← length_cons, drop_left]
    have back := ih ⟨byte :: rest, by rw [drop]; simp⟩
      (fun other member => continued other (mem_append_left _ member))
    have continues := continued byte (mem_append_right _ (mem_singleton.mpr rfl))
    rw [length_append, length_singleton, ← add_assoc, utf8BackToStart,
      add_assoc, read_of_drop last, ok_bind, if_pos continues, back]

theorem utf8Prev_word (valid : IsCharacter c) :
    utf8Prev (before ++ utf8Word c ++ after) (before.length + (utf8Word c).length) =
      .ok before.length := by
  obtain ⟨lead, tail, word, _, first, continued⟩ := utf8Word_lead valid
  have here : (before ++ lead :: tail ++ after).drop before.length = lead :: (tail ++ after) := by
    rw [append_assoc, drop_left]
    rfl
  rw [word, length_cons, ← add_assoc, utf8Prev]
  exact utf8BackToStart_word _ tail lead _ ⟨after, here⟩ first continued

end

/-- `utf8_decode`, `utf8_skip_forward` and `utf8_skip_backward` are a cursor of UTF-8. -/
def utf8Cursor : Cursor Fault utf8Code where
  get := utf8Decode
  next := utf8Next
  prev := utf8Prev
  get_spell := utf8Decode_word
  next_spell := utf8Next_word
  prev_spell := utf8Prev_word

variable {units : List UInt8}

theorem utf8ScanRest_inside {count : Nat} (fits : i + count < units.length) :
    utf8ScanRest units count i c ≠ .error (.outside position) := by
  induction count generalizing i c with
  | zero =>
    intro run
    cases run
  | succ count ih =>
    rw [utf8ScanRest, read_of_lt (show i + 1 < units.length by omega), ok_bind]
    split
    · exact ih (by omega)
    · nofun

theorem utf8Round_sound {last : Nat} (going : i < len)
    (run : utf8Round units len i = .ok (.char c last)) :
    IsCharacter c ∧ units.drop i = utf8Word c ++ units.drop (last + 1) ∧
      last + 1 = i + (utf8Word c).length ∧ last < len := by
  rw [utf8Round] at run
  obtain ⟨lead, found, looked⟩ := of_bind run
  dsimp only at looked
  split at looked
  · rename_i start
    split at looked
    · cases looked
    rename_i complete
    obtain ⟨second, foundSecond, looked⟩ := of_bind looked
    split at looked
    · cases looked
    rename_i exact
    obtain ⟨value, rest, looked⟩ := of_bind looked
    split at looked
    · cases looked
    rename_i accepted
    cases looked
    have skip : 2 ≤ utf8Skip lead := by
      rcases utf8Skip_start start with ⟨_, skip⟩ | ⟨_, _, skip⟩ | ⟨_, skip⟩ <;> omega
    obtain ⟨tail, size, drop, continued, rfl⟩ := utf8ScanRest_sound _ _ _ _ _ rest
    have total : utf8Skip lead = tail.length + 1 := by omega
    have form : Utf8Form lead tail := by
      refine ⟨start, total, continued, ?_⟩
      intro other head
      cases tail with
      | nil => cases head
      | cons byte tail =>
        cases head
        rw [drop_of_read foundSecond] at drop
        rw [← (List.cons.inj drop).1]
        exact Bool.eq_false_iff.mpr exact
    have valid := (isInvalid_eq_false_iff _).mp (Bool.eq_false_iff.mpr accepted)
    rw [total] at valid ⊢
    have word := form.word valid
    change IsCharacter (utf8Value lead tail) ∧ units.drop i =
      utf8Word (utf8Value lead tail) ++ units.drop (i + (tail.length + 1 - 1) + 1) ∧ _
    refine ⟨valid, ?_, ?_, ?_⟩
    · have after : i + (tail.length + 1 - 1) + 1 = i + 1 + (utf8Skip lead - 1) := by omega
      rw [word, after, drop_of_read found, drop]
      rfl
    · change i + (tail.length + 1 - 1) + 1 = i + (utf8Word (utf8Value lead tail)).length
      rw [word, length_cons]
      omega
    · omega
  · split at looked
    · rename_i invariant
      cases looked
      have small : lead.toNat < 0x80 := by
        simpa only [isInvariant, decide_eq_true_eq] using invariant
      have word : utf8Word lead.toNat = [lead] := by
        rw [utf8Word_one small, UInt8.ofNat_toNat]
      refine ⟨?_, ?_, ?_, going⟩
      · unfold IsCharacter
        omega
      · rw [word, drop_of_read found]
        rfl
      · rw [word]
        rfl
    · cases looked

theorem utf8Round_complete {rest : List UInt8}
    (valid : IsCharacter c) (here : units.drop i = utf8Word c ++ rest)
    (fits : i + (utf8Word c).length ≤ len) :
    utf8Round units len i = .ok (.char c (i + (utf8Word c).length - 1)) := by
  by_cases one : c < 0x80
  · have byte : (UInt8.ofNat c).toNat = c := toNat_ofNat_of_lt (by omega)
    have single : ¬isStart c = true := by
      intro start
      have range := (isStart_iff c).mp start
      omega
    have invariant : isInvariant c = true := decide_eq_true one
    rw [utf8Word_one one] at here ⊢
    rw [utf8Round, read_of_drop here, ok_bind, byte, if_neg single, if_pos invariant]
    rfl
  obtain ⟨lead, tail, word, form, value⟩ := utf8Word_form valid (Nat.le_of_not_lt one)
  rw [word] at here fits ⊢
  rw [length_cons] at fits ⊢
  have next : units.drop (i + 1) = tail ++ rest := by
    rw [← drop_drop, here]
    rfl
  have loop := utf8ScanRest_eq units tail i (lead.toNat &&& startMask (tail.length + 1))
    form.continued ⟨rest, next⟩
  have room : ¬len < i + (tail.length + 1) := by omega
  have accepted : ¬isInvalid c = true := by
    rw [(isInvalid_eq_false_iff c).mpr valid]
    exact Bool.false_ne_true
  cases tail with
  | nil =>
    rcases utf8Skip_start form.start with ⟨_, skip⟩ | ⟨_, _, skip⟩ | ⟨_, skip⟩
    all_goals
      have size := form.size
      rw [skip] at size
      cases size
  | cons second tail =>
    have exact : ¬isOverlong lead.toNat second.toNat = true := by
      rw [form.exact second rfl]
      exact Bool.false_ne_true
    rw [utf8Round, read_of_drop here, ok_bind, if_pos form.start]
    simp only [form.size, Nat.add_sub_cancel]
    rw [if_neg room, read_of_drop next, ok_bind, if_neg exact, loop, ok_bind]
    change (if isInvalid (utf8Value lead (second :: tail)) = true then _ else _) = _
    rw [if_neg (value ▸ accepted)]
    exact congrArg (fun c => Except.ok (ScanRound.char c _)) value

theorem utf8Round_inside (fits : len ≤ units.length)
    (going : i < len) : utf8Round units len i ≠ .error (.outside position) := by
  rw [utf8Round, read_of_lt (show i < units.length by omega), ok_bind]
  dsimp only
  split
  · rename_i start
    split
    · nofun
    rename_i complete
    have skip : 2 ≤ utf8Skip units[i] := by
      rcases utf8Skip_start start with ⟨_, skip⟩ | ⟨_, _, skip⟩ | ⟨_, skip⟩ <;> omega
    rw [read_of_lt (show i + 1 < units.length by omega), ok_bind]
    split
    · nofun
    cases rest : utf8ScanRest units (utf8Skip units[i] - 1) i
        (units[i].toNat &&& startMask (utf8Skip units[i])) with
    | error fault =>
      intro run
      cases run
      exact utf8ScanRest_inside (by omega) rest
    | ok value =>
      rw [ok_bind]
      split
      · nofun
      · nofun
  · split
    · nofun
    · nofun

theorem utf8Round_recognises (fits : len ≤ units.length) :
    Recognises utf8Code units len (utf8Round units len) where
  sound := utf8Round_sound
  complete := utf8Round_complete
  inside := utf8Round_inside fits

end RakudoStar.Strings
