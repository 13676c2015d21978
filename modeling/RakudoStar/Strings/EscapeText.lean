import RakudoStar.Strings.EscapeRun
import RakudoStar.Strings.IntegerRoundTrip

/-!
# Escaped strings read back

`Parrot_str_escape` stays inside its buffer, and its text is read back. An unescaped source
stands for the result, unless a slip is reached.
-/

namespace RakudoStar.Strings

open Foundation List Option Nat

/-- What is put for a character. -/
def escapeChar (c : Nat) : List Nat := (asciiEscape c).getD (hexEscape c)

def escapeText (cs : List Nat) : List Nat := cs.flatMap escapeChar

variable {c : Nat} {text : List Nat}

theorem length_asciiEscape (found : asciiEscape c = some text) : c < 0x7F ∧ text.length ≤ 2 := by
  unfold asciiEscape at found
  by_cases small : c < 0x7F
  · refine ⟨small, ?_⟩
    rw [if_pos small] at found
    split at found
    · cases found
      exact le_refl 2
    split at found
    · cases found
      exact le_succ 1
    · cases found
  · rw [if_neg small] at found
    cases found

theorem length_digitsText_le {n k : Nat} (positive : 0 < k) (bound : n < 16 ^ k) :
    (digitsText 16 n).length ≤ k := by
  unfold digitsText
  by_cases isZero : n = 0
  · rw [if_pos isZero]
    exact positive
  · rw [if_neg isZero, length_map, length_reverse]
    exact (digits_length_le_iff (by decide) n).mpr bound

theorem length_fourDigits (bound : c < 0x10000) : (fourDigits c).length = 4 := by
  have most : (digitsText 16 c).length ≤ 4 := length_digitsText_le (by decide) bound
  rw [fourDigits, length_append, length_replicate]
  omega

theorem length_hexEscape (bound : c < 0x110000) : (hexEscape c).length ≤ 16 := by
  unfold hexEscape
  split
  · have most : (digitsText 16 c).length ≤ 6 :=
      length_digitsText_le (by decide) (bound.trans (by decide))
    simp only [length_append, length_cons, length_nil]
    omega
  have small : c < 0x10000 := by omega
  rw [length_append, length_fourDigits small]
  decide

/-- The memory has the capacity, and begins with the text. -/
structure Escaped (text : List Nat) (charlen : Nat) (memory : List UInt8) : Prop where
  capacity : memory.length = charlen
  fits : text.length ≤ charlen
  written : memory.take text.length = text.map UInt8.ofNat

section

variable {charlen : Nat} {memory : List UInt8}

section
variable (escaped : Escaped text charlen memory)
include escaped

theorem Escaped.enlarge (len : Nat) :
    Escaped text (enlarge charlen len memory).1 (enlarge charlen len memory).2 ∧
      text.length + 16 ≤ (enlarge charlen len memory).1 := by
  have grown : memory.length < charlen + len * 2 + hexBufSize := by
    rw [escaped.capacity, hexBufSize]
    omega
  have fits := escaped.fits
  refine ⟨⟨reallocate_length grown, ?_, ?_⟩, ?_⟩
  · exact le_trans fits ((Nat.le_add_right _ _).trans (Nat.le_add_right _ _))
  · have inside : text.length ≤ memory.length := escaped.capacity ▸ fits
    exact (reallocate_take _ inside).trans escaped.written
  · change text.length + 16 ≤ charlen + len * 2 + 16
    omega

theorem Escaped.roomForAscii (c len : Nat) :
    Escaped text (roomForAscii c charlen len text.length memory).1
        (roomForAscii c charlen len text.length memory).2 ∧
      (c < 0x7F → text.length + 2 ≤ (roomForAscii c charlen len text.length memory).1) := by
  unfold Strings.roomForAscii
  by_cases full : c < 0x7F ∧ charlen - 2 ≤ text.length
  · rw [if_pos full]
    obtain ⟨larger, room⟩ := escaped.enlarge len
    exact ⟨larger, fun _ => (Nat.add_le_add_left (by decide) _).trans room⟩
  rw [if_neg full]
  refine ⟨escaped, fun small => ?_⟩
  omega

theorem Escaped.roomForHex {hexLen : Nat} (most : hexLen ≤ 16) (len : Nat) :
    Escaped text (roomForHex hexLen charlen len text.length memory).1
        (roomForHex hexLen charlen len text.length memory).2 ∧
      text.length + hexLen ≤ (roomForHex hexLen charlen len text.length memory).1 := by
  unfold Strings.roomForHex
  by_cases full : charlen < text.length + hexLen
  · rw [if_pos full]
    obtain ⟨larger, room⟩ := escaped.enlarge len
    exact ⟨larger, (Nat.add_le_add_left most _).trans room⟩
  · rw [if_neg full]
    exact ⟨escaped, Nat.le_of_not_lt full⟩

theorem Escaped.store {more : List Nat} (room : text.length + more.length ≤ charlen) :
    ∃ next, storeText memory text.length more = .ok next ∧ Escaped (text ++ more) charlen next := by
  have fits : text.length + (more.map UInt8.ofNat).length ≤ memory.length := by
    rw [length_map, escaped.capacity]
    exact room
  have front : (memory.take text.length ++ more.map UInt8.ofNat).length =
      (text ++ more).length := by
    rw [escaped.written, length_append, length_append, length_map, length_map]
  refine ⟨_, if_pos fits, ?_, ?_, ?_⟩
  · rw [← escaped.capacity]
    simp only [length_append, length_take, length_drop] at front ⊢
    omega
  · rw [length_append]
    exact room
  · rw [← front, take_left, escaped.written, map_append]

end

end

variable {cs : List Nat} {order : ByteOrder} {seed : UInt64} {src : ParrotString}

theorem escapeLoop_spec (spells : Spells order seed src cs) {rest : List Nat}
    {iter : StringIter} (there : AtSuffix order src cs iter rest) {charlen : Nat}
    {memory : List UInt8} (escaped : Escaped text charlen memory) :
    ∃ charlen' memory', escapeLoop order src rest.length iter charlen text.length memory =
        .ok (memory', (text ++ escapeText rest).length) ∧
      Escaped (text ++ escapeText rest) charlen' memory' := by
  induction rest generalizing iter text charlen memory with
  | nil =>
    refine ⟨charlen, memory, ?_, ?_⟩
    · rw [escapeText, flatMap_nil, append_nil]
      rfl
    · rw [escapeText, flatMap_nil, append_nil]
      exact escaped
  | cons c rest ih =>
    obtain ⟨next, read, after⟩ := there.read spells
    have whole : escapeText (c :: rest) = escapeChar c ++ escapeText rest := rfl
    obtain ⟨larger, ascii⟩ := escaped.roomForAscii c (rest.length + 1)
    rw [length_cons, escapeLoop, read, Except.ok_bind, whole, ← append_assoc]
    dsimp only
    cases found : asciiEscape c with
    | some letters =>
      obtain ⟨small, two⟩ := length_asciiEscape found
      have put : escapeChar c = letters := by rw [escapeChar, found, getD_some]
      obtain ⟨stored, store, more⟩ := larger.store ((Nat.add_le_add_left two _).trans (ascii small))
      dsimp only
      rw [store, Except.ok_bind, put, ← length_append]
      exact ih after more
    | none =>
      have put : escapeChar c = hexEscape c := by rw [escapeChar, found, getD_none]
      have bound := spells.lt (there.mem mem_cons_self)
      obtain ⟨enough, room⟩ := larger.roomForHex (length_hexEscape bound) (rest.length + 1)
      obtain ⟨stored, store, more⟩ := enough.store room
      rw [store, Except.ok_bind, put, ← length_append]
      exact ih after more

theorem digitOf_digitCharacter {d : Nat} (small : d < 16) :
    IsHexDigit (digitCharacter d) ∧ digitOf (digitCharacter d) = d := by
  interval_cases d <;> decide

theorem strtol_digitsText (n : Nat) :
    (∀ c ∈ digitsText 16 n, IsHexDigit c) ∧ strtol 16 (digitsText 16 n) = n := by
  induction n using Nat.strongRecOn with
  | ind n ih =>
    obtain ⟨hex, value⟩ := digitOf_digitCharacter (mod_lt n (by decide : 0 < 16))
    rw [digitsText_eq (by decide)]
    by_cases last : n / 16 = 0
    · rw [if_pos last, nil_append]
      constructor
      · intro c member
        rw [mem_singleton.mp member]
        exact hex
      have small : n < 16 := by omega
      change 0 * 16 + digitOf (digitCharacter (n % 16)) = n
      rw [value, mod_eq_of_lt small, Nat.zero_mul, zero_add]
    obtain ⟨all, most⟩ := ih (n / 16) (by omega)
    rw [if_neg last]
    constructor
    · intro c member
      rcases mem_append.mp member with front | final
      · exact all c front
      · rw [mem_singleton.mp final]
        exact hex
    rw [strtol, foldl_append, ← strtol, most]
    change n / 16 * 16 + digitOf (digitCharacter (n % 16)) = n
    rw [value]
    omega

theorem strtol_fourDigits (c : Nat) :
    (∀ d ∈ fourDigits c, IsHexDigit d) ∧ strtol 16 (fourDigits c) = c := by
  obtain ⟨all, value⟩ := strtol_digitsText c
  constructor
  · intro d member
    rcases mem_append.mp member with zeros | digit
    · rw [eq_of_mem_replicate zeros]
      decide
    · exact all d digit
  have zeros : ∀ n, strtol 16 (replicate n 48) = 0 := by
    intro n
    induction n with
    | zero => rfl
    | succ n ih => exact ih
  rw [fourDigits, strtol, foldl_append, ← strtol, zeros]
  exact value

theorem stepAt_escapeChar (bound : c < 0x110000) (rest : List Nat) :
    stepAt false (escapeChar c ++ rest) = .put c rest := by
  unfold escapeChar
  cases found : asciiEscape c with
  | some text =>
    rw [getD_some]
    unfold asciiEscape at found
    by_cases small : c < 0x7F
    · rw [if_pos small] at found
      split at found
      · rename_i letter lookup
        cases found
        obtain ⟨before, after, split, -⟩ := lookup_eq_some_iff.mp lookup
        have member : (c, letter) ∈ escapeLetters := by
          rw [split]
          exact mem_append_right _ mem_cons_self
        simp only [escapeLetters, mem_cons, Prod.mk.injEq, not_mem_nil, or_false] at member
        rcases member with ⟨rfl, rfl⟩ | ⟨rfl, rfl⟩ | ⟨rfl, rfl⟩ | ⟨rfl, rfl⟩ | ⟨rfl, rfl⟩ |
          ⟨rfl, rfl⟩ | ⟨rfl, rfl⟩ | ⟨rfl, rfl⟩ | ⟨rfl, rfl⟩ <;> rfl
      rename_i lookup
      split at found
      · cases found
        apply stepAt_plain
        rintro rfl
        cases lookup
      · cases found
    · rw [if_neg small] at found
      cases found
  | none =>
    rw [getD_none]
    unfold hexEscape
    by_cases braces : c < 0x100 ∨ 0x10000 ≤ c
    · obtain ⟨all, value⟩ := strtol_digitsText c
      have most : (digitsText 16 c).length ≤ 8 :=
        length_digitsText_le (by decide) (bound.trans (by decide))
      rw [if_pos braces, append_assoc, append_assoc]
      refine (bracedStep_append all (digitsText_ne_nil (by decide) c) most).trans ?_
      rw [value]
      rfl
    obtain ⟨all, value⟩ := strtol_fourDigits c
    have four : (fourDigits c).length = 4 := length_fourDigits (by omega)
    rw [if_neg braces, append_assoc]
    refine (fixedStep_append false all four).trans ?_
    rw [value]

theorem Produces.escapeText (valid : ∀ c ∈ cs, IsCharacter c) {outcome : Outcome}
    (produces : Produces .utf8 (escapeText cs) outcome) : outcome = .done cs := by
  induction cs generalizing outcome with
  | nil =>
    cases produces with
    | stop _ => rfl
    | illegal step => cases step
    | outside step => cases step
    | refused step _ => cases step
    | put step _ _ => cases step
  | cons c cs ih =>
    have first := valid c mem_cons_self
    have step := stepAt_escapeChar (lt_succ_of_le first.2.2.2) (Strings.escapeText cs)
    have whole : Strings.escapeText (c :: cs) = escapeChar c ++ Strings.escapeText cs := rfl
    rw [whole] at produces
    cases produces with
    | stop other | illegal other | outside other => cases step.symm.trans other
    | refused other refused =>
      cases step.symm.trans other
      exact absurd first refused
    | @put _ _ _ later other _ rest =>
      cases step.symm.trans other
      have same := ih (forall_mem_cons.mp valid).2 rest
      rw [same]
      rfl

theorem IsHexDigit.small (hex : IsHexDigit c) : c < 0x80 := by
  unfold IsHexDigit at hex
  omega

theorem escapeChar_small (c : Nat) : ∀ d ∈ escapeChar c, d < 0x80 := by
  intro d member
  unfold escapeChar at member
  cases found : asciiEscape c with
  | some text =>
    rw [found, getD_some] at member
    unfold asciiEscape at found
    split at found
    · rename_i small
      split at found
      · rename_i letter lookup
        cases found
        obtain ⟨before, after, split, -⟩ := lookup_eq_some_iff.mp lookup
        have listed : (c, letter) ∈ escapeLetters := by
          rw [split]
          exact mem_append_right _ mem_cons_self
        have letters : ∀ entry ∈ escapeLetters, entry.2 < 0x80 := by decide
        rcases mem_cons.mp member with rfl | rest
        · decide
        · rw [mem_singleton.mp rest]
          exact letters _ listed
      split at found
      · cases found
        rw [mem_singleton.mp member]
        exact lt_trans small (by decide)
      · cases found
    · cases found
  | none =>
    rw [found, getD_none] at member
    unfold hexEscape at member
    split at member
    · simp only [mem_append, mem_cons, not_mem_nil, or_false] at member
      rcases member with ((rfl | rfl | rfl) | digit) | rfl
      · decide
      · decide
      · decide
      · exact ((strtol_digitsText c).1 d digit).small
      · decide
    simp only [mem_append, mem_cons, not_mem_nil, or_false] at member
    rcases member with (rfl | rfl) | digit
    · decide
    · decide
    · exact ((strtol_fourDigits c).1 d digit).small

theorem strEscape_spec (spells : Spells order seed src cs) (countable : cs.length < 2 ^ 64) :
    ∃ escaped, strEscape order src = .ok escaped ∧ Spells order seed escaped (escapeText cs) := by
  have all : ¬2 ^ 64 - 1 < src.strlen := by
    rw [spells.strlen]
    omega
  have small : ∀ d ∈ escapeText cs, d < 0x80 := by
    intro d member
    obtain ⟨c, _, within⟩ := mem_flatMap.mp member
    exact escapeChar_small c d within
  unfold strEscape strEscapeTruncate
  rw [if_neg all, spells.strlen]
  dsimp only
  generalize (if 2 * cs.length < hexBufSize then hexBufSize else 2 * cs.length) = charlen
  have empty : Escaped [] charlen (replicate charlen 0) := ⟨length_replicate, zero_le _, rfl⟩
  obtain ⟨_, memory, run, escaped⟩ := escapeLoop_spec spells (atSuffix_init order src cs) empty
  rw [length_nil, nil_append] at run
  rw [nil_append] at escaped
  rw [run, Except.ok_bind]
  refine ⟨_, rfl, ?_⟩
  rw [escaped.written]
  exact (newAscii_spells order seed small).2

/-- What the string holds is what the source stands for. -/
def Unescapes (order : ByteOrder) (seed : UInt64) (cs : List Nat)
    (result : Except EscapeFault ParrotString) : Prop :=
  ∃ str vs, result = .ok str ∧ Spells order seed str vs ∧ Denotes cs vs

theorem Spells.codes_unique {str : ParrotString} {ds : List Nat} (first : Spells order seed str cs)
    (second : Spells order seed str ds) : cs = ds := by
  have itself := @stringEqual_eq order seed str str cs cs first first false Bool.noConfusion
  have other := @stringEqual_eq order seed str str cs ds first second false Bool.noConfusion
  rw [itself] at other
  exact of_decide_eq_true ((Except.ok.inj other).symm.trans (decide_eq_true rfl))

theorem unescapes_iff (spells : Spells order seed src cs)
    (encoding : Encoding) : Refuses (strUnescapeString order src encoding) ∨
        Unescapes order seed cs (strUnescapeString order src encoding) ↔ ¬Slips encoding cs := by
  obtain ⟨outcome, produces, describes⟩ := strUnescapeString_produces spells encoding
  have right : Refuses (strUnescapeString order src encoding) ∨
      Unescapes order seed cs (strUnescapeString order src encoding) ↔ outcome.Right cs := by
    cases outcome with
    | threw => exact ⟨fun _ => trivial, fun _ => .inl describes⟩
    | outside =>
      obtain ⟨position, outside⟩ := describes
      rw [outside]
      constructor
      · rintro ((impossible | ⟨_, _, impossible⟩) | ⟨_, _, impossible, _⟩) <;> cases impossible
      · exact fun impossible => absurd impossible not_false
    | done vs =>
      obtain ⟨str, run, _, holds⟩ := describes
      rw [run]
      constructor
      · rintro ((impossible | ⟨_, _, impossible⟩) | ⟨other, ws, same, spelled, denotes⟩)
        · cases impossible
        · cases impossible
        · cases same
          rw [spelled.codes_unique holds] at denotes
          exact denotes
      · exact fun denotes => .inr ⟨str, vs, rfl, holds, denotes⟩
  rw [right]
  constructor
  · exact fun good slips => produces.not_right slips good
  · exact produces.right

/-- Every string is read back from its escaped form, and escaping stays inside the buffer. A source
is unescaped as documented or refused exactly if no slip is reached in it. -/
theorem unescape_escape {order : ByteOrder} {seed : UInt64} {src : ParrotString} {cs : List Nat}
    (spells : Spells order seed src cs) (encoding : Encoding) :
    (cs.length < 2 ^ 64 → ∃ escaped str, strEscape order src = .ok escaped ∧
        strUnescapeString order escaped .utf8 = .ok str ∧ str.encoding = .utf8 ∧
          Spells order seed str cs) ∧ (Refuses (strUnescapeString order src encoding) ∨
          Unescapes order seed cs (strUnescapeString order src encoding) ↔ ¬Slips encoding cs) := by
  constructor
  · intro countable
    obtain ⟨escaped, run, spelled⟩ := strEscape_spec spells countable
    obtain ⟨outcome, produces, describes⟩ := strUnescapeString_produces spelled .utf8
    have valid : ∀ c ∈ cs, IsCharacter c := fun c member => (spells.holds c member).isCharacter
    rw [produces.escapeText valid] at describes
    obtain ⟨str, unescaped, encoded, back⟩ := describes
    exact ⟨escaped, str, run, unescaped, encoded, back⟩
  · exact unescapes_iff spells encoding

/-- A quotation mark and `é`. -/
theorem unescape_escape_quote :
    (∃ escaped str, strEscape .little ⟨.utf8, [34, 0xC3, 0xA9], 2, 0⟩ = .ok escaped ∧
      strUnescapeString .little escaped .utf8 = .ok str ∧ str.encoding = .utf8 ∧
        Spells .little 0 str [34, 0xE9]) ∧
      (Refuses (strUnescapeString .little ⟨.utf8, [34, 0xC3, 0xA9], 2, 0⟩ .utf8) ∨
          Unescapes .little 0 [34, 0xE9]
            (strUnescapeString .little ⟨.utf8, [34, 0xC3, 0xA9], 2, 0⟩ .utf8) ↔
        ¬Slips .utf8 [34, 0xE9]) := by
  have characters : ∀ c ∈ [34, 0xE9], IsCharacter c := by decide
  have quote : Spells .little 0 ⟨.utf8, [34, 0xC3, 0xA9], 2, 0⟩ [34, 0xE9] :=
    ⟨characters, rfl, rfl, .inl rfl⟩
  exact ⟨(unescape_escape quote .utf8).1 (by decide), (unescape_escape quote .utf8).2⟩

/-- The last character of `\7z` is dropped. -/
theorem unescape_drops_last :
    strUnescapeString .little ⟨.ascii, [92, 55, 122], 3, 0⟩ .utf8 = .ok ⟨.utf8, [7], 1, 0⟩ ∧
      ¬∀ order seed src cs encoding, Spells order seed src cs →
        Refuses (strUnescapeString order src encoding) ∨
          Unescapes order seed cs (strUnescapeString order src encoding) := by
  constructor
  · rfl
  intro always
  have small : ∀ c ∈ [92, 55, 122], c < 0x80 := by decide
  have spells : Spells .little 0 ⟨.ascii, [92, 55, 122], 3, 0⟩ [92, 55, 122] :=
    ⟨small, rfl, rfl, .inl rfl⟩
  have slip : Slip .utf8 [92, 55, 122] :=
    @Slip.octal .utf8 122 [55] (by decide) (cons_ne_nil _ _) (by decide) (by decide)
  exact (unescapes_iff spells .utf8).mp (always _ _ _ _ .utf8 spells) (.here slip)

end RakudoStar.Strings
