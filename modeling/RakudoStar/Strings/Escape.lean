import RakudoStar.Strings.IntegerText

/-!
# Escape sequences

`Parrot_str_escape` and `Parrot_str_unescape_string`. Numbers of escape sequences are read from
`digbuf`, with the digits of `strtol`.
-/

namespace RakudoStar.Strings

open Foundation

def hexBufSize : Nat := 16

/-- The characters with an escape sequence of their own, with the letter behind the backslash. -/
def escapeLetters : List (Nat × Nat) :=
  [(92, 92), (7, 97), (8, 98), (10, 110), (13, 114), (9, 116), (12, 102), (34, 34), (27, 101)]

def asciiEscape (c : Nat) : Option (List Nat) :=
  if c < 0x7F then
    match escapeLetters.lookup c with
    | some letter => some [92, letter]
    | none => if 0x20 ≤ c then some [c] else none
  else none

def fourDigits (c : Nat) : List Nat :=
  List.replicate (4 - (digitsText 16 c).length) 48 ++ digitsText 16 c

/-- `\x{%x}` or `\u%04x`. -/
def hexEscape (c : Nat) : List Nat :=
  if c < 0x100 ∨ 0x10000 ≤ c then [92, 120, 123] ++ digitsText 16 c ++ [125]
  else [92, 117] ++ fourDigits c

/-- The capacity and the memory after `Parrot_gc_reallocate_string_storage`, with `len` code
points to go. -/
def enlarge (charlen len : Nat) (memory : List UInt8) : Nat × List UInt8 :=
  let charlen := charlen + len * 2 + hexBufSize
  (charlen, reallocate memory charlen)

/-- The storage before an ASCII character. -/
def roomForAscii (c charlen len i : Nat) (memory : List UInt8) : Nat × List UInt8 :=
  if c < 0x7F ∧ charlen - 2 ≤ i then enlarge charlen len memory else (charlen, memory)

/-- The storage before an escape sequence with digits. -/
def roomForHex (hexLen charlen len i : Nat) (memory : List UInt8) : Nat × List UInt8 :=
  if charlen < i + hexLen then enlarge charlen len memory else (charlen, memory)

/-- Code points stored as bytes. -/
def storeText (memory : List UInt8) (i : Nat) (text : List Nat) : Except Fault (List UInt8) :=
  writeAt memory i (text.map UInt8.ofNat)

/-- The loop of `Parrot_str_escape_truncate`, with the number of code points that are left. -/
def escapeLoop (order : ByteOrder) (src : ParrotString) :
    Nat → StringIter → Nat → Nat → List UInt8 → Except Fault (List UInt8 × Nat)
  | 0, _, _, i, memory => .ok (memory, i)
  | left + 1, iter, charlen, i, memory => do
    let (c, iter) ← iterGetAndAdvanceOf order src iter
    let (charlen, memory) := roomForAscii c charlen (left + 1) i memory
    match asciiEscape c with
    | some text => do
      let memory ← storeText memory i text
      escapeLoop order src left iter charlen (i + text.length) memory
    | none => do
      let text := hexEscape c
      let (charlen, memory) := roomForHex text.length charlen (left + 1) i memory
      let memory ← storeText memory i text
      escapeLoop order src left iter charlen (i + text.length) memory

/-- `Parrot_str_escape_truncate` of a string that is not `STRINGNULL`. -/
def strEscapeTruncate (order : ByteOrder) (src : ParrotString) (limit : Nat) :
    Except Fault ParrotString := do
  let len := if limit < src.strlen then limit else src.strlen
  let charlen := if 2 * len < hexBufSize then hexBufSize else 2 * len
  let (memory, i) ← escapeLoop order src len .init charlen 0 (List.replicate charlen 0)
  .ok ⟨.ascii, memory.take i, i, 0⟩

def strEscape (order : ByteOrder) (src : ParrotString) : Except Fault ParrotString :=
  strEscapeTruncate order src (2 ^ 64 - 1)

/-- `Illegal escape sequence`, or what an access to a string ends with. -/
inductive EscapeFault where
  | illegalEscape
  | access (fault : Fault)
  deriving DecidableEq, Repr

/-- An access to a string, where its faults are those of the escape sequences. -/
def stringAccess {α : Type} (access : Except Fault α) : Except EscapeFault α :=
  access.mapError EscapeFault.access

/-- A digit, in either case. -/
def IsHexDigit (c : Nat) : Prop := 48 ≤ c ∧ c ≤ 57 ∨ 65 ≤ c ∧ c ≤ 70 ∨ 97 ≤ c ∧ c ≤ 102

instance (c : Nat) : Decidable (IsHexDigit c) := inferInstanceAs (Decidable (_ ∨ _))

def IsOctalDigit (c : Nat) : Prop := 48 ≤ c ∧ c ≤ 55

instance (c : Nat) : Decidable (IsOctalDigit c) := inferInstanceAs (Decidable (_ ∧ _))

/-- `isxdigit`, whose table has an entry for every byte. -/
def isxdigit (c : Nat) : Except EscapeFault Bool :=
  if c < 256 then .ok (decide (IsHexDigit c)) else .error (.access (.outside c))

def digitOf (c : Nat) : Nat := if c ≤ 57 then c - 48 else if c ≤ 70 then c - 55 else c - 87

/-- `strtol` of digits. -/
def strtol (base : Nat) (digbuf : List Nat) : Nat :=
  digbuf.foldl (fun value c => value * base + digitOf c) 0

/-- The letters that stand for one character. -/
def unescapeLetters : List (Nat × Nat) :=
  [(97, 7), (98, 8), (116, 9), (110, 10), (118, 11), (102, 12), (114, 13), (101, 27)]

/-- The code point stored next, the one read last, and whether it is pending. -/
structure Round where
  next : Nat
  c : Nat
  pending : Bool
  itersrc : StringIter

section

variable (order : ByteOrder) (src : ParrotString)

def atEnd (itersrc : StringIter) : Bool := src.bytes.length ≤ itersrc.bytepos

def nextCharacter (itersrc : StringIter) : Except EscapeFault (Nat × StringIter) :=
  stringAccess (iterGetAndAdvanceOf order src itersrc)

/-- The pending character, or the next one. -/
def currentCharacter (pending : Option Nat) (itersrc : StringIter) :
    Except EscapeFault (Nat × StringIter) :=
  match pending with
  | some c => .ok (c, itersrc)
  | none => nextCharacter order src itersrc

/-- `\cX` -/
def unescapeControl (itersrc : StringIter) : Except EscapeFault Round :=
  if atEnd src itersrc then .ok ⟨92, 99, false, itersrc⟩
  else do
    let (c, itersrc) ← nextCharacter order src itersrc
    if c < 65 ∨ 90 < c then .error .illegalEscape else .ok ⟨c - 65 + 1, c, false, itersrc⟩

/-- The loop over the digits of `\x{h..h}`, in `rounds` rounds: nine are enough for eight
digits. -/
def bracedLoop : Nat → Nat → List Nat → StringIter →
    Except EscapeFault (List Nat × Nat × StringIter)
  | 0, c, digbuf, itersrc => .ok (digbuf, c, itersrc)
  | rounds + 1, c, digbuf, itersrc =>
    if atEnd src itersrc then .ok (digbuf, c, itersrc)
    else do
      let (c, itersrc) ← nextCharacter order src itersrc
      if c = 125 then .ok (digbuf, c, itersrc)
      else do
        let hex ← isxdigit c
        if !hex then .error .illegalEscape
        else if digbuf.length = 8 then .ok (digbuf, c, itersrc)
        else bracedLoop rounds c (digbuf ++ [c]) itersrc

/-- `\x{h..h}` behind the brace. -/
def unescapeBraced (itersrc : StringIter) : Except EscapeFault Round := do
  let (digbuf, c, itersrc) ← bracedLoop order src 9 123 [] itersrc
  if c ≠ 125 then .error .illegalEscape
  else if digbuf = [] then .error .illegalEscape
  else .ok ⟨strtol 16 digbuf, c, false, itersrc⟩

/-- The loop over the digits of `\xhh`. -/
def hexLoop : Nat → Nat → List Nat → StringIter →
    Except EscapeFault (List Nat × Nat × Bool × StringIter)
  | 0, c, digbuf, itersrc => .ok (digbuf, c, true, itersrc)
  | left + 1, c, digbuf, itersrc => do
    let hex ← isxdigit c
    if !hex then .ok (digbuf, c, true, itersrc)
    else if atEnd src itersrc then .ok (digbuf ++ [c], c, false, itersrc)
    else do
      let (next, itersrc) ← nextCharacter order src itersrc
      hexLoop left next (digbuf ++ [c]) itersrc

/-- `\xhh` from its first digit on. -/
def unescapeHex (c : Nat) (itersrc : StringIter) : Except EscapeFault Round := do
  let (digbuf, c, pending, itersrc) ← hexLoop order src 2 c [] itersrc
  if digbuf = [] then .error .illegalEscape else .ok ⟨strtol 16 digbuf, c, pending, itersrc⟩

/-- `case 'x'` -/
def unescapeX (itersrc : StringIter) : Except EscapeFault Round :=
  if atEnd src itersrc then .ok ⟨92, 120, false, itersrc⟩
  else do
    let (c, itersrc) ← nextCharacter order src itersrc
    if c = 123 then unescapeBraced order src itersrc else unescapeHex order src c itersrc

/-- The loop over the digits of `\uhhhh` and `\Uhhhhhhhh`. -/
def fixedLoop : Nat → Nat → List Nat → StringIter → Except EscapeFault (List Nat × Nat × StringIter)
  | 0, c, digbuf, itersrc => .ok (digbuf, c, itersrc)
  | left + 1, c, digbuf, itersrc =>
    if atEnd src itersrc then .ok (digbuf, c, itersrc)
    else do
      let (c, itersrc) ← nextCharacter order src itersrc
      let hex ← isxdigit c
      if !hex then .error .illegalEscape
      else fixedLoop left c (digbuf ++ [c]) itersrc

/-- `case 'u'` and `case 'U'` -/
def unescapeFixed (count c : Nat) (itersrc : StringIter) : Except EscapeFault Round := do
  let (digbuf, c, itersrc) ← fixedLoop order src count c [] itersrc
  .ok ⟨strtol 16 digbuf, c, false, itersrc⟩

/-- The loop over the digits of `\ooo` behind the first one. -/
def octalLoop : Nat → Nat → List Nat → StringIter → Except EscapeFault (List Nat × Nat × StringIter)
  | 0, c, digbuf, itersrc => .ok (digbuf, c, itersrc)
  | left + 1, c, digbuf, itersrc =>
    if atEnd src itersrc then .ok (digbuf, c, itersrc)
    else do
      let (c, itersrc) ← nextCharacter order src itersrc
      if IsOctalDigit c then octalLoop left c (digbuf ++ [c]) itersrc
      else .ok (digbuf, c, itersrc)

/-- `case '0'` to `case '7'` -/
def unescapeOctal (c : Nat) (itersrc : StringIter) : Except EscapeFault Round := do
  let (digbuf, c, itersrc) ← octalLoop order src 2 c [c] itersrc
  .ok ⟨strtol 8 digbuf, c, !atEnd src itersrc && digbuf.length < 3, itersrc⟩

/-- `switch (c)` behind a backslash. -/
def unescapeSwitch (c : Nat) (itersrc : StringIter) : Except EscapeFault Round :=
  match unescapeLetters.lookup c with
  | some next => .ok ⟨next, c, false, itersrc⟩
  | none =>
    if c = 99 then unescapeControl order src itersrc
    else if c = 120 then unescapeX order src itersrc
    else if c = 117 then unescapeFixed order src 4 c itersrc
    else if c = 85 then unescapeFixed order src 8 c itersrc
    else if IsOctalDigit c then unescapeOctal order src c itersrc
    else .ok ⟨c, c, false, itersrc⟩

/-- The body of the inner loop before the code point is stored. A backslash at the end leaves the
loop. -/
def unescapeRound (c : Nat) (itersrc : StringIter) : Except EscapeFault (Option Round) :=
  if c ≠ 92 then .ok (some ⟨c, c, false, itersrc⟩)
  else if atEnd src itersrc then .ok none
  else do
    let (c, itersrc) ← nextCharacter order src itersrc
    let round ← unescapeSwitch order src c itersrc
    .ok (some round)

/-- Both loops of `Parrot_str_unescape_string`. -/
def unescapeLoop (encoding : Encoding) : Nat → Option Nat → StringIter → List UInt8 → StringIter →
    Except EscapeFault (List UInt8 × StringIter)
  | 0, _, _, memory, iterdest => .ok (memory, iterdest)
  | rounds + 1, pending, itersrc, memory, iterdest =>
    if pending = none ∧ atEnd src itersrc then .ok (memory, iterdest)
    else do
      let (c, itersrc) ← currentCharacter order src pending itersrc
      let round ← unescapeRound order src c itersrc
      match round with
      | none => unescapeLoop encoding rounds none itersrc memory iterdest
      | some round => do
        let (memory, iterdest) ←
          stringAccess (iterSetAndAdvanceOf order encoding memory iterdest round.next)
        unescapeLoop encoding rounds (if round.pending then some round.c else none)
          round.itersrc memory iterdest

def strUnescapeString (encoding : Encoding) : Except EscapeFault ParrotString := do
  let reserved := encoding.maxBytesPerCodepoint * src.bytes.length
  let (memory, iterdest) ← unescapeLoop order src encoding (src.strlen + 1) none .init
    (List.replicate reserved 0) .init
  .ok ⟨encoding, memory.take iterdest.bytepos, iterdest.charpos, 0⟩

end

end RakudoStar.Strings
