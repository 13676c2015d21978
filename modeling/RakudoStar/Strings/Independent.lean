import RakudoStar.Strings.Convert

/-!
# Strings are independent of their encoding

Equality, order, hash values and substrings are functions of the code points, and a conversion
keeps them or throws.
-/

namespace RakudoStar.Strings

open Foundation List RakudoStar.Except Nat

theorem Encoding.Holds.isCharacter {encoding : Encoding} {c : Nat} (holds : encoding.Holds c) :
    IsCharacter c := by
  have small : c < 0x100 → IsCharacter c := by
    intro small
    unfold IsCharacter
    omega
  cases encoding with
  | ascii => exact small (holds.trans (by decide))
  | latin1 => exact small holds
  | binary => exact small holds
  | utf8 => exact holds
  | utf16 => exact holds
  | ucs2 => exact holds.1
  | ucs4 => exact holds

theorem length_spell_le (order : ByteOrder) (encoding : Encoding) (c : Nat) :
    (encoding.spell order c).length ≤ encoding.maxBytesPerCodepoint := by
  cases encoding with
  | ascii | latin1 | binary => exact le_refl 1
  | utf8 =>
    change (utf8Word c).length ≤ 4
    unfold utf8Word
    split
    · exact le_of_ble_eq_true rfl
    split
    · exact le_of_ble_eq_true rfl
    · split <;> exact le_of_ble_eq_true rfl
  | utf16 =>
    change (bytesOf order (utf16Word c)).length ≤ 4
    rw [length_bytesOf]
    unfold utf16Word
    split <;> exact le_of_ble_eq_true rfl
  | ucs2 => exact le_of_eq (length_spell_ucs2 order c)
  | ucs4 => exact le_of_eq (length_spell_ucs4 order c)

theorem iterSetAndAdvanceOf_eq {order : ByteOrder} {encoding : Encoding} {cs : List Nat} {k : Nat}
    (inside : k < cs.length) (holds : encoding.Holds cs[k]) {memory : List UInt8}
    (room : (codeOf order encoding).boundary cs k + encoding.maxBytesPerCodepoint ≤ memory.length)
    (written : memory.take ((codeOf order encoding).boundary cs k) =
      (codeOf order encoding).text (cs.take k)) :
    ∃ stored, iterSetAndAdvanceOf order encoding memory (stringIterAt order encoding cs k) cs[k] =
        .ok (stored, stringIterAt order encoding cs (k + 1)) ∧
      stored.take ((codeOf order encoding).boundary cs (k + 1)) =
        (codeOf order encoding).text (cs.take (k + 1)) := by
  have encoded := (encodeAs_eq_ok_iff order encoding).mpr ⟨holds, rfl⟩
  have wordBound := length_spell_le order encoding cs[k]
  have next : (codeOf order encoding).boundary cs (k + 1) =
      (codeOf order encoding).boundary cs k + (encoding.spell order cs[k]).length :=
    WordCode.boundary_succ inside
  have place := storePosition_at order encoding inside.le
  have taken : (memory.take ((codeOf order encoding).boundary cs k)).length =
      (codeOf order encoding).boundary cs k := by
    rw [length_take]
    omega
  refine ⟨memory.take ((codeOf order encoding).boundary cs k) ++ encoding.spell order cs[k] ++
    memory.drop ((codeOf order encoding).boundary cs k + (encoding.spell order cs[k]).length),
    ?_, ?_⟩
  · rw [iterSetAndAdvanceOf, encoded, ok_bind, place, writeAt, if_pos (by omega),
      ok_bind, stringIterAt, stringIterAt, next]
  have total : (memory.take ((codeOf order encoding).boundary cs k) ++
      encoding.spell order cs[k]).length = (codeOf order encoding).boundary cs (k + 1) := by
    rw [length_append, taken, next]
  have split : cs.take (k + 1) = cs.take k ++ [cs[k]] := take_succ_eq_append_getElem inside
  rw [← total, take_left, written, split, WordCode.text_append, WordCode.text_cons,
    WordCode.text_nil, append_nil]
  rfl

theorem iterSetAndAdvanceOf_throws {order : ByteOrder} {encoding : Encoding} {c : Nat}
    (refused : ¬encoding.Holds c) (memory : List UInt8) (i : StringIter) :
    ∃ type message, iterSetAndAdvanceOf order encoding memory i c =
      .error (.thrown type message) := by
  rw [iterSetAndAdvanceOf]
  cases encoded : encodeAs order encoding c with
  | ok word => exact absurd ((encodeAs_eq_ok_iff order encoding).mp encoded).1 refused
  | error fault =>
    cases fault with
    | thrown type message => exact ⟨type, message, rfl⟩
    | outside position => exact absurd encoded (encodeAs_inside order encoding c position)

/-- A failure that the code reports. -/
def Throws {α : Type} (result : Except Fault α) : Prop :=
  ∃ type message, result = .error (.thrown type message)

section

variable {order : ByteOrder} {seed : UInt64} {src : ParrotString} {cs : List Nat}
  {count k : Nat} {memory : List UInt8} {bytes : List UInt8} {codes : List Nat}

theorem reallocate_take {position : Nat} (size : Nat) (inside : position ≤ memory.length) :
    (reallocate memory size).take position = memory.take position :=
  take_append_of_le_length inside

theorem reallocate_length {size : Nat} (grown : memory.length < size) :
    (reallocate memory size).length = size := by
  rw [reallocate, length_append, length_replicate]
  omega

theorem convertLoop_spec (spells : Spells order seed src cs) (estimate : Nat → Nat)
    (encoding : Encoding) (total : k + count = cs.length)
    (allocated : (codeOf order encoding).boundary cs k ≤ memory.length)
    (written : memory.take ((codeOf order encoding).boundary cs k) =
      (codeOf order encoding).text (cs.take k)) : ((∀ c ∈ cs.drop k, encoding.Holds c) ∧
        ∃ stored, convertLoop order estimate src encoding count
            (stringIterAt order src.encoding cs k) memory (stringIterAt order encoding cs k) =
          .ok (stored, stringIterAt order encoding cs cs.length) ∧
        stored.take ((codeOf order encoding).boundary cs cs.length) =
          (codeOf order encoding).text cs) ∨ ((¬∀ c ∈ cs.drop k, encoding.Holds c) ∧
        Throws (convertLoop order estimate src encoding count
          (stringIterAt order src.encoding cs k) memory (stringIterAt order encoding cs k))) := by
  induction count generalizing k memory with
  | zero =>
    have last : k = cs.length := total
    subst last
    rw [take_length] at written
    exact .inl ⟨by simp, memory, rfl, written⟩
  | succ count ih =>
    have inside : k < cs.length := by omega
    have here : cs.drop k = cs[k] :: cs.drop (k + 1) := drop_eq_getElem_cons inside
    let enough :=
      if memory.length < (codeOf order encoding).boundary cs k + encoding.maxBytesPerCodepoint then
        reallocate memory (estimate (src.strlen - (k + 1)) +
          ((codeOf order encoding).boundary cs k + encoding.maxBytesPerCodepoint))
      else memory
    have room : (codeOf order encoding).boundary cs k + encoding.maxBytesPerCodepoint ≤
        enough.length := by
      change _ ≤ (if _ then _ else _ : List UInt8).length
      split
      · rw [reallocate_length (by omega)]
        omega
      · omega
    have kept : enough.take ((codeOf order encoding).boundary cs k) =
        (codeOf order encoding).text (cs.take k) := by
      change (if _ then _ else _ : List UInt8).take _ = _
      split
      · rw [reallocate_take _ allocated, written]
      · exact written
    have step : convertLoop order estimate src encoding (count + 1)
          (stringIterAt order src.encoding cs k) memory (stringIterAt order encoding cs k) =
        (iterSetAndAdvanceOf order encoding enough (stringIterAt order encoding cs k) cs[k] >>=
          fun stored => convertLoop order estimate src encoding count
            (stringIterAt order src.encoding cs (k + 1)) stored.1 stored.2) := by
      rw [convertLoop, iterGetAndAdvanceOf_at spells inside, ok_bind]
      rfl
    rw [step]
    by_cases holds : encoding.Holds cs[k]
    · obtain ⟨stored, set, text⟩ := iterSetAndAdvanceOf_eq inside holds room kept
      have bound : (codeOf order encoding).boundary cs (k + 1) ≤ stored.length := by
        have length := congrArg length text
        rw [length_take] at length
        change min _ _ = (codeOf order encoding).boundary cs (k + 1) at length
        omega
      rw [set, ok_bind]
      have all : (∀ c ∈ cs.drop k, encoding.Holds c) ↔ ∀ c ∈ cs.drop (k + 1), encoding.Holds c := by
        rw [here, forall_mem_cons]
        exact ⟨fun both => both.2, fun rest => ⟨holds, rest⟩⟩
      rw [all]
      exact ih (by omega) bound text
    have notAll : ¬∀ c ∈ cs.drop k, encoding.Holds c := by
      intro all
      exact holds (all _ (by rw [here]; exact mem_cons_self))
    obtain ⟨type, message, thrown⟩ :=
      @iterSetAndAdvanceOf_throws order encoding cs[k] holds enough
        (stringIterAt order encoding cs k)
    rw [thrown]
    exact .inr ⟨notAll, type, message, rfl⟩

/-- The code points are kept when the encoding holds them all; else it throws. -/
theorem encodingToEncoding_spec (spells : Spells order seed src cs) (estimate : Nat → Nat)
    (encoding : Encoding) :
    ((∀ c ∈ cs, encoding.Holds c) ∧ ∃ result, encodingToEncoding order estimate src encoding =
        .ok result ∧ Spells order seed result cs ∧ result.encoding = encoding) ∨
      ((¬∀ c ∈ cs, encoding.Holds c) ∧
        Throws (encodingToEncoding order estimate src encoding)) := by
  unfold encodingToEncoding
  by_cases same : src.encoding = encoding
  · subst same
    rw [if_pos rfl]
    exact .inl ⟨spells.holds, src, rfl, spells, rfl⟩
  rw [if_neg same]
  by_cases empty : src.strlen = 0
  · have nil : cs = [] := eq_nil_of_length_eq_zero (spells.strlen.symm.trans empty)
    subst nil
    rw [if_pos empty]
    refine .inl ⟨nofun, _, rfl, ?_, rfl⟩
    exact ⟨nofun, rfl, rfl, .inl rfl⟩
  rw [if_neg empty, spells.strlen]
  let alloc := replicate
    (if estimate cs.length < encoding.maxBytesPerCodepoint then encoding.maxBytesPerCodepoint
      else estimate cs.length) (0 : UInt8)
  have spec := convertLoop_spec spells estimate encoding (zero_add cs.length)
    (zero_le alloc.length) (take_zero : alloc.take 0 = [])
  rw [drop_zero] at spec
  rcases spec with ⟨holds, stored, run, text⟩ | ⟨fails, type, message, run⟩
  · have ran : convertLoop order estimate src encoding cs.length .init alloc .init =
        .ok (stored, stringIterAt order encoding cs cs.length) := run
    refine .inl ⟨holds, ⟨encoding, stored.take ((codeOf order encoding).boundary cs cs.length),
      cs.length, 0⟩, ?_, ⟨holds, text, rfl, .inl rfl⟩, rfl⟩
    change (convertLoop order estimate src encoding cs.length .init alloc .init >>= _) = _
    rw [ran]
    rfl
  have ran : convertLoop order estimate src encoding cs.length .init alloc .init =
      .error (.thrown type message) := run
  refine .inr ⟨fails, type, message, ?_⟩
  change (convertLoop order estimate src encoding cs.length .init alloc .init >>= _) = _
  rw [ran]
  rfl

theorem widenLoop_eq (same : ∀ k : Nat, (bytes[k]?).map UInt8.toNat = codes[k]?)
    (total : k + count = codes.length) : widenLoop bytes count k = .ok (codes.drop k) := by
  induction count generalizing k with
  | zero =>
    have last : k = codes.length := total
    rw [widenLoop, last, drop_length]
  | succ count ih =>
    have inside : k < codes.length := by omega
    obtain ⟨byte, taken, value⟩ := read_of_map (same k) inside
    rw [widenLoop, taken, ok_bind, ih (by omega), ok_bind, value, drop_eq_getElem_cons inside]

theorem checkBytes_eq (limit : Nat) (same : ∀ k : Nat, (bytes[k]?).map UInt8.toNat = codes[k]?)
    (total : k + count = codes.length) : checkBytes bytes limit count k =
      if ∀ c ∈ codes.drop k, c < limit then .ok () else .error lossyConversion := by
  induction count generalizing k with
  | zero =>
    have last : k = codes.length := total
    rw [checkBytes, last, drop_length, if_pos (by simp)]
  | succ count ih =>
    have inside : k < codes.length := by omega
    obtain ⟨byte, taken, value⟩ := read_of_map (same k) inside
    have rest : (∀ c ∈ codes.drop k, c < limit) ↔
        codes[k] < limit ∧ ∀ c ∈ codes.drop (k + 1), c < limit := by
      rw [drop_eq_getElem_cons inside, forall_mem_cons]
    rw [checkBytes, taken, ok_bind, value, ih (by omega)]
    simp only [rest]
    by_cases beyond : limit ≤ codes[k]
    · rw [if_pos beyond, if_neg (fun both => not_lt.mpr beyond both.1)]
    · simp only [beyond, if_false, Nat.lt_of_not_le beyond, true_and]

theorem narrowLoop_eq (spells : Spells order seed src cs) (limit : Nat)
    (total : k + count = cs.length) :
    narrowLoop order src limit count (stringIterAt order src.encoding cs k) =
      if ∀ c ∈ cs.drop k, c < limit then .ok ((cs.drop k).map UInt8.ofNat)
      else .error lossyConversion := by
  induction count generalizing k with
  | zero =>
    have last : k = cs.length := total
    rw [narrowLoop, last, drop_length, if_pos (by simp)]
    rfl
  | succ count ih =>
    have inside : k < cs.length := by omega
    have rest : (∀ c ∈ cs.drop k, c < limit) ↔
        cs[k] < limit ∧ ∀ c ∈ cs.drop (k + 1), c < limit := by
      rw [drop_eq_getElem_cons inside, forall_mem_cons]
    rw [narrowLoop, iterGetAndAdvanceOf_at spells inside, ok_bind]
    simp only [rest]
    by_cases beyond : limit ≤ cs[k]
    · rw [if_pos beyond, if_neg (fun both => not_lt.mpr beyond both.1)]
    rw [if_neg beyond, ih (by omega)]
    by_cases all : ∀ c ∈ cs.drop (k + 1), c < limit
    · rw [if_pos all, if_pos ⟨Nat.lt_of_not_le beyond, all⟩, ok_bind, drop_eq_getElem_cons inside]
      rfl
    · rw [if_neg all, if_neg (fun both => all both.2)]
      rfl

/-- The same code points, when the encoding holds them all; else it throws. -/
def ConvertsTo (order : ByteOrder) (seed : UInt64) (cs : List Nat) (encoding : Encoding)
    (result : Except Fault ParrotString) : Prop :=
  ((∀ c ∈ cs, encoding.Holds c) ∧
      ∃ str, result = .ok str ∧ Spells order seed str cs ∧ str.encoding = encoding) ∨
    ((¬∀ c ∈ cs, encoding.Holds c) ∧ Throws result)

/-- The single-byte encodings hold the code points below a limit. -/
def Encoding.limit (encoding : Encoding) : Nat := if encoding = .ascii then 0x80 else 0x100

theorem fixed8ToEncoding_spec (spells : Spells order seed src cs) {encoding : Encoding}
    (single : encoding.maxBytesPerCodepoint = 1) :
    ConvertsTo order seed cs encoding (fixed8ToEncoding order src encoding) := by
  have holds : ∀ c, encoding.Holds c ↔ c < encoding.limit := by
    intro c
    cases encoding <;> first | exact Iff.rfl | cases single
  unfold ConvertsTo
  simp only [holds]
  unfold fixed8ToEncoding
  change _ ∨ _ ∧ Throws (if src.encoding.maxBytesPerCodepoint = 1 then _ else _)
  by_cases singleSource : src.encoding.maxBytesPerCodepoint = 1
  · obtain ⟨bytes, bound⟩ := spells.single singleSource
    have relabelled (all : ∀ c ∈ cs, c < encoding.limit) :
        Spells order seed { src with encoding := encoding } cs := by
      refine ⟨fun c member => (holds c).mpr (all c member), ?_, spells.strlen, spells.cached⟩
      change src.bytes = _
      rw [bytes, text_bytes order single]
    have checked := checkBytes_eq encoding.limit (map_bytes bound) (zero_add cs.length)
    rw [drop_zero, ← bytes] at checked
    simp only [singleSource, if_true]
    by_cases all : ∀ c ∈ cs, c < encoding.limit
    · rw [if_pos all] at checked
      refine .inl ⟨all, { src with encoding := encoding }, ?_, relabelled all, rfl⟩
      by_cases low : (if encoding = .ascii then 0x80 else 0x100) < 0x100
      · rw [if_pos low, spells.strlen]
        change (checkBytes src.bytes encoding.limit cs.length 0 >>= _) = _
        rw [checked]
        rfl
      · rw [if_neg low]
    rw [if_neg all] at checked
    have low : (if encoding = .ascii then 0x80 else 0x100) < 0x100 := by
      change encoding.limit < 0x100
      by_contra high
      exact all (fun c member => (bound c member).trans_le (Nat.le_of_not_lt high))
    refine .inr ⟨all, .lossyConversion, "Lossy conversion to single byte encoding", ?_⟩
    rw [if_pos low, spells.strlen]
    change (checkBytes src.bytes encoding.limit cs.length 0 >>= _) = _
    rw [checked]
    rfl
  · have narrowed := narrowLoop_eq spells encoding.limit (zero_add cs.length)
    rw [drop_zero] at narrowed
    simp only [singleSource, if_false]
    by_cases all : ∀ c ∈ cs, c < encoding.limit
    · rw [if_pos all] at narrowed
      refine .inl ⟨all, ⟨encoding, cs.map UInt8.ofNat, cs.length, 0⟩, ?_, ?_, rfl⟩
      · rw [spells.strlen]
        change (narrowLoop order src encoding.limit cs.length
          (stringIterAt order src.encoding cs 0) >>= _) = _
        rw [narrowed]
        rfl
      · exact ⟨fun c member => (holds c).mpr (all c member), (text_bytes order single cs).symm,
          rfl, .inl rfl⟩
    rw [if_neg all] at narrowed
    refine .inr ⟨all, .lossyConversion, "Lossy conversion to single byte encoding", ?_⟩
    rw [spells.strlen]
    change (narrowLoop order src encoding.limit cs.length
      (stringIterAt order src.encoding cs 0) >>= _) = _
    rw [narrowed]
    rfl

theorem utf8ToEncoding_spec (spells : Spells order seed src cs) (estimate : Nat → Nat) :
    ConvertsTo order seed cs .utf8 (utf8ToEncoding order estimate src) := by
  unfold utf8ToEncoding
  by_cases ascii : src.encoding = .ascii
  · rw [if_pos ascii]
    have holds := spells.holds
    have bytes := spells.bytes
    rw [ascii] at holds bytes
    have same : (codeOf order .ascii).text cs = (codeOf order .utf8).text cs := by
      apply flatMap_congr
      intro c member
      exact (utf8Word_one (holds c member)).symm
    have all : ∀ c ∈ cs, Encoding.utf8.Holds c := fun c member =>
      @Encoding.Holds.isCharacter .ascii c (holds c member)
    exact .inl ⟨all, _, rfl, ⟨all, bytes.trans same, spells.strlen, spells.cached⟩, rfl⟩
  · rw [if_neg ascii]
    exact encodingToEncoding_spec spells estimate .utf8

theorem length_text_utf16 (order : ByteOrder) (cs : List Nat) :
    ((codeOf order .utf16).text cs).length = cs.length <<< 1 ↔ ∀ c ∈ cs, c < 0x10000 := by
  have atLeast : ∀ cs : List Nat, cs.length ≤ (utf16Code.text cs).length := fun cs => by
    induction cs with
    | nil => exact le_refl 0
    | cons c cs ih =>
      have positive := length_pos_of_ne_nil (utf16Word_ne_nil c)
      rw [WordCode.text_cons, length_append, length_cons]
      change _ ≤ (utf16Word c).length + _
      omega
  rw [text_utf16, length_bytesOf, shiftLeft_eq, mul_comm]
  have units : (utf16Code.text cs).length = cs.length ↔ ∀ c ∈ cs, c < 0x10000 := by
    induction cs with
    | nil => simp
    | cons c cs ih =>
      have rest := atLeast cs
      have word : (utf16Code.spell c).length = if c < 0x10000 then 1 else 2 := by
        change (utf16Word c).length = _
        unfold utf16Word
        split <;> rfl
      rw [WordCode.text_cons, length_append, word, length_cons, forall_mem_cons, ← ih]
      by_cases small : c < 0x10000
      · rw [if_pos small]
        omega
      · rw [if_neg small]
        omega
  rw [← units]
  omega

theorem text_utf16_eq_ucs2 (order : ByteOrder) (small : ∀ c ∈ cs, c < 0x10000) :
    (codeOf order .utf16).text cs = (codeOf order .ucs2).text cs := by
  apply flatMap_congr
  intro c member
  change bytesOf order (utf16Word c) = order.split (UInt16.ofNat c)
  rw [utf16Word_one (small c member)]
  exact append_nil _

section
variable (spells : Spells order seed src cs) (estimate : Nat → Nat)
include spells

/-- It always succeeds, in UCS-2 unless the string is or needs UTF-16. -/
theorem utf16ToEncoding_spec :
    ∃ str, utf16ToEncoding order estimate src = .ok str ∧ Spells order seed str cs ∧
      (str.encoding = .ucs2 ∨
        str.encoding = .utf16 ∧ (src.encoding = .utf16 ∨ ∃ c ∈ cs, 0x10000 ≤ c)) := by
  have characters : ∀ c ∈ cs, IsCharacter c := fun c member =>
    Encoding.Holds.isCharacter (spells.holds c member)
  unfold utf16ToEncoding
  by_cases single : src.encoding.maxBytesPerCodepoint = 1
  · obtain ⟨bytes, bound⟩ := spells.single single
    have widened := widenLoop_eq (map_bytes bound) (zero_add cs.length)
    rw [← bytes, drop_zero] at widened
    rw [if_pos single, spells.strlen, widened, ok_bind]
    refine ⟨_, rfl, ⟨?_, (text_ucs2 order cs).symm, rfl, .inl rfl⟩, .inl rfl⟩
    intro c member
    exact ⟨characters c member, (bound c member).trans (by decide)⟩
  rw [if_neg single]
  by_cases already : src.encoding = .utf16 ∨ src.encoding = .ucs2
  · rw [if_pos already]
    refine ⟨src, rfl, spells, ?_⟩
    rcases already with utf16 | ucs2
    · exact .inr ⟨utf16, .inl utf16⟩
    · exact .inl ucs2
  rw [if_neg already]
  rcases encodingToEncoding_spec spells estimate .utf16 with
    ⟨_, result, run, kept, tag⟩ | ⟨fails, _⟩
  · rw [run, ok_bind]
    have bytes := kept.bytes
    rw [tag] at bytes
    have downgrade := length_text_utf16 order cs
    rw [← bytes, ← kept.strlen] at downgrade
    by_cases small : ∀ c ∈ cs, c < 0x10000
    · rw [if_pos (downgrade.mpr small)]
      refine ⟨_, rfl, ⟨fun c member => ⟨characters c member, small c member⟩, ?_, kept.strlen,
        kept.cached⟩, .inl rfl⟩
      rw [text_utf16_eq_ucs2 order small] at bytes
      exact bytes
    · rw [if_neg (fun length => small (downgrade.mp length))]
      refine ⟨result, rfl, kept, .inr ⟨tag, .inr ?_⟩⟩
      simpa only [not_forall, not_lt, exists_prop] using small
  · exact absurd characters fails

theorem ucs2ToEncoding_spec :
    (∃ str, ucs2ToEncoding order estimate src = .ok str ∧ Spells order seed str cs ∧
        str.encoding = .ucs2) ∨ ((src.encoding = .utf16 ∨ ∃ c ∈ cs, 0x10000 ≤ c) ∧
        Throws (ucs2ToEncoding order estimate src)) := by
  obtain ⟨str, run, kept, tag⟩ := utf16ToEncoding_spec spells estimate
  unfold ucs2ToEncoding
  rw [run, ok_bind]
  rcases tag with ucs2 | ⟨utf16, reason⟩
  · refine .inl ⟨str, ?_, kept, ucs2⟩
    rw [if_neg (by rw [ucs2]; decide)]
  · refine .inr ⟨reason, .invalidEncoding, "Lossy conversion to UCS-2\n", ?_⟩
    rw [if_pos utf16]

theorem iterateAll_eq (total : k + count = cs.length) :
    iterateAll (iterGetAndAdvanceOf order src) count (stringIterAt order src.encoding cs k) =
      .ok (cs.drop k, stringIterAt order src.encoding cs cs.length) := by
  induction count generalizing k with
  | zero =>
    have last : k = cs.length := total
    subst last
    rw [iterateAll, drop_length]
  | succ count ih =>
    have inside : k < cs.length := by omega
    rw [iterateAll, iterGetAndAdvanceOf_at spells inside, ok_bind]
    simp only
    rw [ih (by omega), ok_bind, drop_eq_getElem_cons inside]

theorem ucs4ToEncoding_spec : ∃ str, ucs4ToEncoding order src = .ok str ∧ Spells order seed str cs ∧
      str.encoding = .ucs4 := by
  have wide : Spells order seed ⟨.ucs4, cs.flatMap order.split4, cs.length, 0⟩ cs :=
    ⟨fun c member => Encoding.Holds.isCharacter (spells.holds c member), rfl, rfl, .inl rfl⟩
  unfold ucs4ToEncoding
  by_cases already : src.encoding = .ucs4
  · rw [if_pos already]
    exact ⟨src, rfl, spells, already⟩
  rw [if_neg already, spells.strlen]
  by_cases single : src.encoding.maxBytesPerCodepoint = 1
  · obtain ⟨bytes, bound⟩ := spells.single single
    have widened := widenLoop_eq (map_bytes bound) (zero_add cs.length)
    rw [← bytes, drop_zero] at widened
    rw [if_pos single, widened, ok_bind]
    exact ⟨_, rfl, wide, rfl⟩
  have seen := iterateAll_eq spells (zero_add cs.length)
  rw [drop_zero] at seen
  rw [if_neg single, show StringIter.init = stringIterAt order src.encoding cs 0 from rfl, seen,
    ok_bind]
  exact ⟨_, rfl, wide, rfl⟩

/-- It throws or keeps the code points, and is UTF-16 only if need be. -/
theorem toEncoding_spec (encoding : Encoding) : Throws (toEncoding order estimate encoding src) ∨
      ∃ str, toEncoding order estimate encoding src = .ok str ∧ Spells order seed str cs ∧
        (str.encoding = .utf16 → src.encoding = .utf16 ∨ ∃ c ∈ cs, 0x10000 ≤ c) := by
  have exact : ∀ {target : Encoding} {result : Except Fault ParrotString}, target ≠ .utf16 →
      ConvertsTo order seed cs target result → Throws result ∨
        ∃ str, result = .ok str ∧ Spells order seed str cs ∧
          (str.encoding = .utf16 → src.encoding = .utf16 ∨ ∃ c ∈ cs, 0x10000 ≤ c) := by
    rintro target result other (⟨_, str, run, kept, tag⟩ | ⟨_, thrown⟩)
    · exact .inr ⟨str, run, kept, fun utf16 => absurd (tag.symm.trans utf16) other⟩
    · exact .inl thrown
  cases encoding with
  | ascii | latin1 | binary => exact exact (by decide) (fixed8ToEncoding_spec spells rfl)
  | utf8 => exact exact (by decide) (utf8ToEncoding_spec spells estimate)
  | utf16 =>
    obtain ⟨str, run, kept, tag⟩ := utf16ToEncoding_spec spells estimate
    refine .inr ⟨str, run, kept, ?_⟩
    intro utf16
    rcases tag with ucs2 | ⟨_, reason⟩
    · rw [ucs2] at utf16
      cases utf16
    · exact reason
  | ucs2 =>
    rcases ucs2ToEncoding_spec spells estimate with ⟨str, run, kept, tag⟩ | ⟨_, thrown⟩
    · refine .inr ⟨str, run, kept, fun utf16 => ?_⟩
      rw [tag] at utf16
      cases utf16
    · exact .inl thrown
  | ucs4 =>
    obtain ⟨str, run, kept, tag⟩ := ucs4ToEncoding_spec spells
    refine .inr ⟨str, run, kept, fun utf16 => ?_⟩
    rw [tag] at utf16
    cases utf16

/-- A conversion back succeeds, to UCS-2 unless the string is UTF-16. -/
theorem toEncoding_holds {encoding : Encoding}
    (holds : ∀ c ∈ cs, encoding.Holds c) (plain : encoding = .ucs2 → src.encoding ≠ .utf16) :
    ∃ str, toEncoding order estimate encoding src = .ok str ∧ Spells order seed str cs := by
  have exact : ∀ {target : Encoding} {result : Except Fault ParrotString},
      (∀ c ∈ cs, target.Holds c) → ConvertsTo order seed cs target result →
        ∃ str, result = .ok str ∧ Spells order seed str cs := by
    rintro target result holds (⟨_, str, run, kept, _⟩ | ⟨fails, _⟩)
    · exact ⟨str, run, kept⟩
    · exact absurd holds fails
  cases encoding with
  | ascii | latin1 | binary => exact exact holds (fixed8ToEncoding_spec spells rfl)
  | utf8 => exact exact holds (utf8ToEncoding_spec spells estimate)
  | utf16 =>
    obtain ⟨str, run, kept, _⟩ := utf16ToEncoding_spec spells estimate
    exact ⟨str, run, kept⟩
  | ucs2 =>
    rcases ucs2ToEncoding_spec spells estimate with ⟨str, run, kept, _⟩ | ⟨reason, _⟩
    · exact ⟨str, run, kept⟩
    rcases reason with utf16 | ⟨c, member, large⟩
    · exact absurd utf16 (plain rfl)
    · exact absurd (holds c member).2 large.not_gt
  | ucs4 =>
    obtain ⟨str, run, kept, _⟩ := ucs4ToEncoding_spec spells
    exact ⟨str, run, kept⟩

end

end

variable (left right : List Nat)

theorem lexSign_eq_zero_iff : lexSign left right = 0 ↔ left = right := by
  unfold lexSign
  split
  · rename_i less
    constructor
    · nofun
    intro equal
    subst equal
    exact absurd less (lt_irrefl _)
  split
  · rename_i equal
    exact ⟨fun _ => equal, fun _ => rfl⟩
  rename_i unequal
  constructor
  · nofun
  · exact fun equal => absurd equal unequal

theorem lexSign_le_zero_iff : lexSign left right ≤ 0 ↔ left ≤ right := by
  unfold lexSign
  rcases lt_trichotomy left right with less | equal | greater
  · rw [if_pos less]
    exact ⟨fun _ => less.le, fun _ => by decide⟩
  · subst equal
    rw [if_neg (lt_irrefl _), if_pos rfl]
    exact ⟨fun _ => le_rfl, fun _ => by decide⟩
  rw [if_neg (lt_asymm greater), if_neg greater.ne']
  constructor
  · intro impossible
    exact absurd impossible (by decide)
  · exact fun atMost => absurd atMost (not_le_of_gt greater)

theorem lexSign_neg : lexSign right left = -lexSign left right := by
  unfold lexSign
  rcases lt_trichotomy left right with less | equal | greater
  · rw [if_pos less, if_neg (lt_asymm less), if_neg less.ne']
    rfl
  · subst equal
    rw [if_neg (lt_irrefl _), if_pos rfl]
    rfl
  · rw [if_pos greater, if_neg (lt_asymm greater), if_neg greater.ne']

/-- Equality, hash values, order, substrings and conversions of strings see the code
points only, for every two encodings. -/
theorem strings_independent_of_encoding (order : ByteOrder) (seed : UInt64)
    (estimate : Nat → Nat) : (∀ (a b : Str order seed) (same : Bool), (same = true → a = b) →
      (stringEqual order same a.header b.header = .ok true ↔ a.codePoints = b.codePoints) ∧
      stringEqual order same a.header b.header = .ok (decide (a.codePoints = b.codePoints))) ∧
    (∀ (a b : Str order seed) (other : UInt64), a.codePoints = b.codePoints →
      ∃ hashval, (stringHash order a.header other).map Prod.fst = .ok hashval ∧
        (stringHash order b.header other).map Prod.fst = .ok hashval) ∧
    (∀ a b : Str order seed, ∃ sign : Int, stringCompare order a.header b.header = .ok sign ∧
      stringCompare order b.header a.header = .ok (-sign) ∧
      sign = lexSign a.codePoints b.codePoints ∧
      (sign = 0 ↔ a.codePoints = b.codePoints) ∧ (sign ≤ 0 ↔ a.codePoints ≤ b.codePoints)) ∧
    (∀ (a : Str order seed) (offset length : Int),
      Shows order seed a.header (stringSubstr order a.header offset length)
        (substrCodes a.codePoints offset length)) ∧ (∀ (a : Str order seed) (encoding : Encoding),
      Throws (toEncoding order estimate encoding a.header) ∨
        ∃ there back, toEncoding order estimate encoding a.header = .ok there ∧
          Spells order seed there a.codePoints ∧
          toEncoding order estimate a.header.encoding there = .ok back ∧
          Spells order seed back a.codePoints) := by
  refine ⟨?_, ?_, ?_, ?_, ?_⟩
  · intro a b same sameCodes
    have run : stringEqual order same a.header b.header =
        .ok (decide (a.codePoints = b.codePoints)) :=
      stringEqual_eq a.spells b.spells
        (fun identical => congrArg Str.codePoints (sameCodes identical))
    refine ⟨?_, run⟩
    rw [run, Except.ok.injEq, decide_eq_true_eq]
  · intro a b other equal
    refine ⟨hashOf other a.codePoints, ?_, ?_⟩
    · rw [stringHash_eq a.spells other]
      rfl
    · rw [stringHash_eq b.spells other, equal]
      rfl
  · intro a b
    refine ⟨lexSign a.codePoints b.codePoints, stringCompare_eq a.spells b.spells, ?_, rfl,
      lexSign_eq_zero_iff _ _, lexSign_le_zero_iff _ _⟩
    rw [stringCompare_eq b.spells a.spells, lexSign_neg]
  · exact fun a offset length => stringSubstr_shows a.spells offset length
  · intro a encoding
    rcases toEncoding_spec a.spells estimate encoding with thrown | ⟨there, run, kept, utf16⟩
    · exact .inl thrown
    right
    have holds : ∀ c ∈ a.codePoints, a.header.encoding.Holds c := a.spells.holds
    obtain ⟨back, returned, same⟩ := toEncoding_holds kept estimate holds (by
      intro ucs2 tag
      rcases utf16 tag with utf16 | ⟨c, member, large⟩
      · rw [ucs2] at utf16
        cases utf16
      · rw [ucs2] at holds
        exact absurd (holds c member).2 large.not_gt)
    exact ⟨there, back, run, kept, returned, same⟩

end RakudoStar.Strings
