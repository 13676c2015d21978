import Mathlib.Data.List.GetD
import Mathlib.Data.List.Nodup

/-!
# Successors and predecessors of texts

`Str.succ` and `Str.pred` take the last run of range characters as digits. All ranges are in one
text, most of them with their first character once more behind the last. Texts are lists of
code points.
-/

namespace RakudoStar.Text

open List

/-- The code points of a text. -/
def codes (s : String) : List Nat := s.toList.map Char.toNat

/-- The ranges, as they stand in `$RANGECHAR`. -/
def rangeLines : List (List Nat) := [
  -- arabic digits
  codes "01234567890",
  -- latin uppercase
  codes "ABCDEFGHIJKLMNOPQRSTUVWXYZA",
  -- latin lowercase
  codes "abcdefghijklmnopqrstuvwxyza",
  -- greek uppercase
  [0x391, 0x392, 0x393, 0x394, 0x395, 0x396, 0x397, 0x398, 0x399, 0x39A, 0x39B, 0x39C, 0x39D,
   0x39E, 0x39F, 0x3A0, 0x3A1, 0x3A3, 0x3A4, 0x3A5, 0x3A6, 0x3A7, 0x3A8, 0x3A9, 0x391],
  -- greek lowercase
  [0x3B1, 0x3B2, 0x3B3, 0x3B4, 0x3B5, 0x3B6, 0x3B7, 0x3B8, 0x3B9, 0x3BA, 0x3BB, 0x3BC, 0x3BD,
   0x3BE, 0x3BF, 0x3C0, 0x3C1, 0x3C3, 0x3C4, 0x3C5, 0x3C6, 0x3C7, 0x3C8, 0x3C9, 0x3B1],
  -- hebrew
  [0x5D0, 0x5D1, 0x5D2, 0x5D3, 0x5D4, 0x5D5, 0x5D6, 0x5D7, 0x5D8, 0x5D9, 0x5DA, 0x5DB, 0x5DC,
   0x5DD, 0x5DE, 0x5DF, 0x5E0, 0x5E1, 0x5E2, 0x5E3, 0x5E4, 0x5E5, 0x5E6, 0x5E7, 0x5E8, 0x5E9,
   0x5EA, 0x5D0],
  -- cyrillic uppercase
  [0x410, 0x411, 0x412, 0x413, 0x414, 0x415, 0x416, 0x417, 0x418, 0x419, 0x41A, 0x41B, 0x41C,
   0x41D, 0x41E, 0x41F, 0x420, 0x421, 0x422, 0x423, 0x424, 0x425, 0x426, 0x427, 0x428, 0x429,
   0x42A, 0x42B, 0x42C, 0x42D, 0x42E, 0x42F, 0x410],
  -- cyrillic lowercase
  [0x430, 0x431, 0x432, 0x433, 0x434, 0x435, 0x436, 0x437, 0x438, 0x439, 0x43A, 0x43B, 0x43C,
   0x43D, 0x43E, 0x43F, 0x440, 0x441, 0x442, 0x443, 0x444, 0x445, 0x446, 0x447, 0x448, 0x449,
   0x44A, 0x44B, 0x44C, 0x44D, 0x44E, 0x44F, 0x430],
  -- arabic-indic digits
  [0x660, 0x661, 0x662, 0x663, 0x664, 0x665, 0x666, 0x667, 0x668, 0x669, 0x660],
  -- devanagari digits
  [0x966, 0x967, 0x968, 0x969, 0x96A, 0x96B, 0x96C, 0x96D, 0x96E, 0x96F, 0x966],
  -- bengali digits
  [0x9E6, 0x9E7, 0x9E8, 0x9E9, 0x9EA, 0x9EB, 0x9EC, 0x9ED, 0x9EE, 0x9EF, 0x9E6],
  -- gurmukhi digits
  [0xA66, 0xA67, 0xA68, 0xA69, 0xA6A, 0xA6B, 0xA6C, 0xA6D, 0xA6E, 0xA6F, 0xA66],
  -- gujarati digits
  [0xAE6, 0xAE7, 0xAE8, 0xAE9, 0xAEA, 0xAEB, 0xAEC, 0xAED, 0xAEE, 0xAEF, 0xAE6],
  -- oriya digits
  [0xB66, 0xB67, 0xB68, 0xB69, 0xB6A, 0xB6B, 0xB6C, 0xB6D, 0xB6E, 0xB6F, 0xB66],
  -- fullwidth digits
  [0xFF10, 0xFF11, 0xFF12, 0xFF13, 0xFF14, 0xFF15, 0xFF16, 0xFF17, 0xFF18, 0xFF19, 0xFF10],
  -- superscripts
  [0x2070, 0x2071, 0xB2, 0xB3, 0x2074, 0x2075, 0x2076, 0x2077, 0x2078, 0x2079],
  -- subscripts
  [0x2080, 0x2081, 0x2082, 0x2083, 0x2084, 0x2085, 0x2086, 0x2087, 0x2088, 0x2089],
  -- clock roman uc
  [0x2160, 0x2161, 0x2162, 0x2163, 0x2164, 0x2165, 0x2166, 0x2167, 0x2168, 0x2169, 0x216A,
   0x216B, 0x2160],
  -- clock roman lc
  [0x2170, 0x2171, 0x2172, 0x2173, 0x2174, 0x2175, 0x2176, 0x2177, 0x2178, 0x2179, 0x217A,
   0x217B, 0x2170],
  -- circled digits 1..20
  [0x2460, 0x2461, 0x2462, 0x2463, 0x2464, 0x2465, 0x2466, 0x2467, 0x2468, 0x2469, 0x246A,
   0x246B, 0x246C, 0x246D, 0x246E, 0x246F, 0x2470, 0x2471, 0x2472, 0x2473, 0x2460],
  -- parenthesized digits 1..20
  [0x2474, 0x2475, 0x2476, 0x2477, 0x2478, 0x2479, 0x247A, 0x247B, 0x247C, 0x247D, 0x247E,
   0x247F, 0x2480, 0x2481, 0x2482, 0x2483, 0x2484, 0x2485, 0x2486, 0x2487, 0x2474],
  -- parenthesized latin lc
  [0x249C, 0x249D, 0x249E, 0x249F, 0x24A0, 0x24A1, 0x24A2, 0x24A3, 0x24A4, 0x24A5, 0x24A6,
   0x24A7, 0x24A8, 0x24A9, 0x24AA, 0x24AB, 0x24AC, 0x24AD, 0x24AE, 0x24AF, 0x24B0, 0x24B1,
   0x24B2, 0x24B3, 0x24B4, 0x24B5, 0x249C],
  -- die faces
  [0x2680, 0x2681, 0x2682, 0x2683, 0x2684, 0x2685, 0x2680],
  -- dingbat negative circled 1..10
  [0x2776, 0x2777, 0x2778, 0x2779, 0x277A, 0x277B, 0x277C, 0x277D, 0x277E, 0x277F, 0x2776]]

def rangechar : List Nat := rangeLines.flatten

/-- The digit to extend a text with, if it is carried past its first range character. -/
def carrydigit : List (Nat × Nat) := [
  -- arabic
  (0x30, 0x31),
  -- arabic-indic
  (0x660, 0x661),
  -- devanagari
  (0x966, 0x967),
  -- bengali
  (0x9E6, 0x9E7),
  -- gurmukhi
  (0xA66, 0xA67),
  -- gujarati
  (0xAE6, 0xAE7),
  -- oriya
  (0xB66, 0xB67),
  -- fullwidth
  (0xFF10, 0xFF11),
  -- superscripts
  (0x2070, 0x2071),
  -- subscripts
  (0x2080, 0x2081)]

/-- The character behind the first place of one. -/
def nextIn (chars : List Nat) (ch : Nat) : Nat := chars.getD (chars.idxOf ch + 1) 0

/-- The second place of a character, or else the first one. -/
def lastPlaceIn (chars : List Nat) (ch : Nat) : Nat :=
  let ipos := chars.idxOf ch
  let behind := chars.drop (ipos + 1)
  if ch ∈ behind then ipos + 1 + behind.idxOf ch else ipos

/-- The character in front of that place. -/
def prevIn (chars : List Nat) (ch : Nat) : Nat := chars.getD (lastPlaceIn chars ch - 1) 0

def nextChar : Nat → Nat := nextIn rangechar

def prevChar : Nat → Nat := prevIn rangechar

/-- The character that is put in front of the digits. -/
def carryOf (ch : Nat) : Nat := (carrydigit.lookup ch).getD ch

/-- The two loops of `RANGEPOS`, backwards from a position: the inner one knows the end of the
run. -/
def rangePosFrom (str : List Nat) : Nat → Option Nat → Option (Nat × Nat)
  | 0, none => none
  | 0, some last => some (0, last)
  | pos + 1, none =>
    if str.getD pos 0 ∈ rangechar then rangePosFrom str pos (some pos)
    else rangePosFrom str pos none
  | pos + 1, some last =>
    if str.getD pos 0 = 46 then rangePosFrom str pos none
    else if str.getD pos 0 ∉ rangechar then some (pos + 1, last)
    else rangePosFrom str pos (some last)

/-- `RANGEPOS`, where no run is `(0, -1)` in the source. -/
def rangePos (str : List Nat) : Option (Nat × Nat) := rangePosFrom str str.length none

/-- The loop of `succ`, over so many characters from `r0` on, and backwards. -/
def succLoop (r0 : Nat) : Nat → List Nat → List Nat
  | 0, str => str
  | count + 1, str =>
    let pos := r0 + count
    let ch0 := str.getD pos 0
    let ch1 := nextChar ch0
    let str := str.set pos ch1
    if ch0 < ch1 then str
    else
      let str := if count = 0 then str.insertIdx r0 (carryOf ch1) else str
      succLoop r0 count str

def succ (str : List Nat) : List Nat :=
  match rangePos str with
  | none => str
  | some (r0, r1) => succLoop r0 (r1 + 1 - r0) str

/-- The loop of `pred`; without a character that can be decremented it fails. -/
def predLoop (r0 : Nat) : Nat → List Nat → Option (List Nat)
  | 0, _ => none
  | count + 1, str =>
    let pos := r0 + count
    let ch0 := str.getD pos 0
    let ch1 := prevChar ch0
    let str := str.set pos ch1
    if ch1 < ch0 then some str else predLoop r0 count str

def pred (str : List Nat) : Option (List Nat) :=
  match rangePos str with
  | none => none
  | some (r0, r1) => predLoop r0 (r1 + 1 - r0) str

/-- Distinct characters, behind which the first one may stand once more. -/
def Wheel (chars : List Nat) : Prop :=
  chars.Nodup ∨ chars.dropLast.Nodup ∧ chars = chars.dropLast ++ chars.take 1

instance (chars : List Nat) : Decidable (Wheel chars) := inferInstanceAs (Decidable (_ ∨ _))

variable {ch : Nat} {chars : List Nat}

section

variable {i : Nat}

theorem Wheel.nodup_dropLast (wheel : Wheel chars) : chars.dropLast.Nodup := by
  rcases wheel with nodup | ⟨nodup, _⟩
  · exact nodup.sublist (dropLast_sublist chars)
  · exact nodup

theorem Wheel.idxOf_getElem (wheel : Wheel chars) (inside : i + 1 < chars.length) :
    chars.idxOf chars[i] = i := by
  have inFront : i < chars.dropLast.length := by
    rw [length_dropLast]
    omega
  have same : chars.dropLast[i] = chars[i] := getElem_dropLast inFront
  have nonempty : chars ≠ [] := by
    rintro rfl
    cases inside
  have place : (chars.dropLast ++ [chars.getLast nonempty]).idxOf chars.dropLast[i] = i := by
    rw [idxOf_append_of_mem (getElem_mem inFront)]
    exact wheel.nodup_dropLast.idxOf_getElem i inFront
  rwa [dropLast_append_getLast, same] at place

theorem Wheel.lastPlaceIn_getElem (wheel : Wheel chars) (inside : i + 1 < chars.length) :
    lastPlaceIn chars chars[i + 1] = i + 1 := by
  rcases wheel with nodup | ⟨nodup, closed⟩
  · have place := nodup.idxOf_getElem (i + 1) inside
    have notBehind : chars[i + 1] ∉ chars.drop (i + 1 + 1) := by
      rw [mem_drop_iff_getElem]
      rintro ⟨j, inside', same⟩
      have equal := (nodup.getElem_inj_iff).mp same
      omega
    rw [lastPlaceIn, place]
    exact if_neg notBehind
  obtain ⟨first, mid, rfl⟩ : ∃ first mid, chars = first :: (mid ++ [first]) := by
    cases chars with
    | nil => cases inside
    | cons first rest =>
      refine ⟨first, rest.dropLast, ?_⟩
      have nonempty : rest ≠ [] := by
        rintro rfl
        exact absurd inside (by simp)
      rw [dropLast_cons_of_ne_nil nonempty] at closed
      exact closed
  have front : (first :: (mid ++ [first])).dropLast = first :: mid := by
    rw [← cons_append]
    exact dropLast_concat
  rw [front, nodup_cons] at nodup
  simp only [length_cons, length_append, length_nil] at inside
  rw [getElem_cons_succ]
  by_cases inMid : i < mid.length
  · have other : first ≠ mid[i] := by
      rintro same
      exact nodup.1 (same ▸ getElem_mem inMid)
    have place := nodup.2.idxOf_getElem i inMid
    have notBehind : mid[i] ∉ (first :: (mid ++ [first])).drop (i + 1 + 1) := by
      rw [drop_succ_cons, drop_append_of_le_length (by omega), mem_append,
        mem_singleton, mem_drop_iff_getElem]
      rintro (⟨j, inside', same⟩ | same)
      · have equal := (nodup.2.getElem_inj_iff).mp same
        omega
      · exact other same.symm
    rw [getElem_append_left inMid, lastPlaceIn, idxOf_cons_ne _ other,
      idxOf_append_of_mem (getElem_mem inMid), place]
    exact if_neg notBehind
  obtain rfl : i = mid.length := by omega
  rw [getElem_concat_length rfl, lastPlaceIn, idxOf_cons_self]
  have behind : (first :: (mid ++ [first])).drop (0 + 1) = mid ++ [first] := rfl
  rw [behind, if_pos (by simp), idxOf_append_of_notMem nodup.1, idxOf_cons_self]
  omega

theorem Wheel.prevIn_nextIn (wheel : Wheel chars) (notLast : chars.idxOf ch + 1 < chars.length) :
    nextIn chars ch ∈ chars ∧ 0 < lastPlaceIn chars (nextIn chars ch) ∧
      prevIn chars (nextIn chars ch) = ch := by
  have next : nextIn chars ch = chars[chars.idxOf ch + 1] := getD_eq_getElem _ _ notLast
  have place := wheel.lastPlaceIn_getElem notLast
  refine ⟨?_, ?_, ?_⟩
  · rw [next]
    exact getElem_mem _
  · rw [next, place]
    exact Nat.succ_pos _
  · rw [next, prevIn, place, Nat.add_sub_cancel, getD_eq_getElem _ _ (by omega)]
    exact getElem_idxOf (by omega)

theorem lastPlaceIn_spec (member : ch ∈ chars) :
    ∃ inside : lastPlaceIn chars ch < chars.length, chars[lastPlaceIn chars ch] = ch := by
  rw [lastPlaceIn]
  have first := idxOf_lt_length_of_mem member
  split
  · next behind =>
      have second := idxOf_lt_length_of_mem behind
      have found := getElem_idxOf second
      rw [length_drop] at second
      rw [getElem_drop] at found
      exact ⟨by omega, found⟩
  · exact ⟨first, getElem_idxOf first⟩

theorem Wheel.nextIn_prevIn (wheel : Wheel chars) (member : ch ∈ chars)
    (notFirst : 0 < lastPlaceIn chars ch) :
    prevIn chars ch ∈ chars ∧ chars.idxOf (prevIn chars ch) + 1 < chars.length ∧
      nextIn chars (prevIn chars ch) = ch := by
  obtain ⟨inside, isChar⟩ := lastPlaceIn_spec member
  generalize placeEq : lastPlaceIn chars ch = place at *
  obtain ⟨place, rfl⟩ := Nat.exists_eq_succ_of_ne_zero (Nat.ne_of_gt notFirst)
  have prev : prevIn chars ch = chars[place] := by
    rw [prevIn, placeEq, Nat.succ_sub_one]
    exact getD_eq_getElem _ _ (by omega)
  have first := wheel.idxOf_getElem inside
  refine ⟨?_, ?_, ?_⟩
  · rw [prev]
    exact getElem_mem _
  · rw [prev, first]
    exact inside
  · rw [prev, nextIn, first, getD_eq_getElem _ _ inside, isChar]

end

section

variable {front back : List Nat}

theorem nextIn_among (notFront : ch ∉ front) (member : ch ∈ chars)
    (notLast : chars.idxOf ch + 1 < chars.length) :
    nextIn (front ++ (chars ++ back)) ch = nextIn chars ch := by
  rw [nextIn, idxOf_append_of_notMem notFront, idxOf_append_of_mem member, Nat.add_assoc,
    getD_append_right _ _ _ _ (Nat.le_add_right _ _), Nat.add_sub_cancel_left,
    getD_append _ _ _ _ notLast]
  rfl

theorem lastPlaceIn_among (notFront : ch ∉ front) (member : ch ∈ chars) (notBack : ch ∉ back) :
    lastPlaceIn (front ++ (chars ++ back)) ch = front.length + lastPlaceIn chars ch := by
  have inside := idxOf_lt_length_of_mem member
  have behind : (front ++ (chars ++ back)).drop (front.length + chars.idxOf ch + 1) =
      chars.drop (chars.idxOf ch + 1) ++ back := by
    rw [Nat.add_assoc, ← drop_drop, drop_left, drop_append_of_le_length (by omega)]
  rw [lastPlaceIn, idxOf_append_of_notMem notFront, idxOf_append_of_mem member, behind, lastPlaceIn]
  by_cases again : ch ∈ chars.drop (chars.idxOf ch + 1)
  · rw [if_pos (mem_append_left _ again), if_pos again, idxOf_append_of_mem again]
    omega
  · rw [if_neg (fun either => (mem_append.mp either).elim again notBack), if_neg again]

theorem prevIn_among (notFront : ch ∉ front) (member : ch ∈ chars) (notBack : ch ∉ back)
    (notFirst : 0 < lastPlaceIn chars ch) :
    prevIn (front ++ (chars ++ back)) ch = prevIn chars ch := by
  obtain ⟨inside, _⟩ := lastPlaceIn_spec member
  have place : front.length + lastPlaceIn chars ch - 1 =
      front.length + (lastPlaceIn chars ch - 1) := by omega
  rw [prevIn, lastPlaceIn_among notFront member notBack, place,
    getD_append_right _ _ _ _ (Nat.le_add_right _ _), Nat.add_sub_cancel_left,
    getD_append _ _ _ _ (by omega)]
  rfl

end

/-- The number of the range that a character is in. -/
def lineNumber (ch : Nat) : Nat :=
  if ch ≤ 0x39 then 0 else if ch ≤ 0x5A then 1 else if ch ≤ 0x7A then 2 else if ch ≤ 0xB3 then 15
  else if ch ≤ 0x3A9 then 3 else if ch ≤ 0x3C9 then 4 else if ch ≤ 0x42F then 6
  else if ch ≤ 0x44F then 7 else if ch ≤ 0x5EA then 5 else if ch ≤ 0x669 then 8
  else if ch ≤ 0x96F then 9 else if ch ≤ 0x9EF then 10 else if ch ≤ 0xA6F then 11
  else if ch ≤ 0xAEF then 12 else if ch ≤ 0xB6F then 13 else if ch ≤ 0x2079 then 15
  else if ch ≤ 0x2089 then 16 else if ch ≤ 0x216B then 17 else if ch ≤ 0x217B then 18
  else if ch ≤ 0x2473 then 19 else if ch ≤ 0x2487 then 20 else if ch ≤ 0x24B5 then 21
  else if ch ≤ 0x2685 then 22 else if ch ≤ 0x277F then 23 else 14

theorem lineNumber_getD : ∀ number < 24, ∀ ch ∈ rangeLines.getD number [],
    lineNumber ch = number := by
  decide +kernel

theorem lineNumber_eq {number : Nat} (inside : number < rangeLines.length)
    (member : ch ∈ rangeLines[number]) : lineNumber ch = number := by
  refine lineNumber_getD number inside ch ?_
  rwa [getD_eq_getElem _ _ inside]

theorem wheel_of_mem : ∀ line ∈ rangeLines, Wheel line := by
  decide +kernel

/-- The last character of a range without its first one behind it: superscript and subscript
nine. -/
def Unclosed (ch : Nat) : Prop := ch = 0x2079 ∨ ch = 0x2089

instance (ch : Nat) : Decidable (Unclosed ch) := inferInstanceAs (Decidable (_ ∨ _))

/-- The first character of such a range: superscript and subscript zero. -/
def Unopened (ch : Nat) : Prop := ch = 0x2070 ∨ ch = 0x2080

instance (ch : Nat) : Decidable (Unopened ch) := inferInstanceAs (Decidable (_ ∨ _))

theorem places_of_mem : ∀ line ∈ rangeLines, ∀ ch ∈ line,
    (Unclosed ch ∨ line.idxOf ch + 1 < line.length) ∧ (Unopened ch ∨ 0 < lastPlaceIn line ch) := by
  decide +kernel

/-- Two characters of one range. -/
def SameRange (a b : Nat) : Prop := ∃ line ∈ rangeLines, a ∈ line ∧ b ∈ line

theorem mem_rangechar : ch ∈ rangechar ↔ ∃ line ∈ rangeLines, ch ∈ line :=
  mem_flatten

theorem exists_line (member : ch ∈ rangechar) :
    ∃ front line back, rangechar = front ++ (line ++ back) ∧ line ∈ rangeLines ∧ ch ∈ line ∧
      ∀ a ∈ line, a ∉ front ∧ a ∉ back := by
  obtain ⟨line, inLines, inLine⟩ := mem_rangechar.mp member
  obtain ⟨number, inside, rfl⟩ := getElem_of_mem inLines
  refine ⟨(rangeLines.take number).flatten, rangeLines[number],
    (rangeLines.drop (number + 1)).flatten, ?_, inLines, inLine, ?_⟩
  · rw [← flatten_cons, ← flatten_append, getElem_cons_drop, take_append_drop]
    rfl
  intro a isIn
  have isNumber := lineNumber_eq inside isIn
  constructor
  · intro other
    obtain ⟨line, inTake, inLine'⟩ := mem_flatten.mp other
    obtain ⟨j, inside', rfl⟩ := mem_take_iff_getElem.mp inTake
    have isOther := lineNumber_eq (by omega) inLine'
    omega
  intro other
  obtain ⟨line, inDrop, inLine'⟩ := mem_flatten.mp other
  obtain ⟨j, inside', rfl⟩ := mem_drop_iff_getElem.mp inDrop
  have isOther := lineNumber_eq (by omega) inLine'
  omega

theorem nextChar_spec (member : ch ∈ rangechar) (closed : ¬ Unclosed ch) :
    SameRange ch (nextChar ch) ∧ prevChar (nextChar ch) = ch := by
  obtain ⟨front, line, back, split, inLines, inLine, others⟩ := exists_line member
  have notLast := (places_of_mem line inLines ch inLine).1.resolve_left closed
  obtain ⟨nextIn_mem, notFirst, inverse⟩ := (wheel_of_mem line inLines).prevIn_nextIn notLast
  have next : nextChar ch = nextIn line ch := by
    rw [nextChar, split]
    exact nextIn_among (others ch inLine).1 inLine notLast
  have prev : prevChar (nextIn line ch) = prevIn line (nextIn line ch) := by
    rw [prevChar, split]
    exact prevIn_among (others _ nextIn_mem).1 nextIn_mem (others _ nextIn_mem).2 notFirst
  rw [next, prev]
  exact ⟨⟨line, inLines, inLine, nextIn_mem⟩, inverse⟩

theorem prevChar_spec (member : ch ∈ rangechar) (opened : ¬ Unopened ch) :
    SameRange ch (prevChar ch) ∧ nextChar (prevChar ch) = ch := by
  obtain ⟨front, line, back, split, inLines, inLine, others⟩ := exists_line member
  have notFirst := (places_of_mem line inLines ch inLine).2.resolve_left opened
  obtain ⟨prevIn_mem, notLast, inverse⟩ := (wheel_of_mem line inLines).nextIn_prevIn inLine notFirst
  have prev : prevChar ch = prevIn line ch := by
    rw [prevChar, split]
    exact prevIn_among (others ch inLine).1 inLine (others ch inLine).2 notFirst
  have next : nextChar (prevIn line ch) = nextIn line (prevIn line ch) := by
    rw [nextChar, split]
    exact nextIn_among (others _ prevIn_mem).1 prevIn_mem notLast
  rw [prev, next]
  exact ⟨⟨line, inLines, inLine, prevIn_mem⟩, inverse⟩

theorem table_ends : nextChar 0x2079 = 0x2080 ∧ nextChar 0x2089 = 0x2160 ∧
    prevChar 0x2080 = 0x2079 ∧ prevChar 0x2070 = 0xFF10 := by
  decide +kernel

theorem table_ends_mem : 0x2079 ∈ rangechar ∧ 0x2080 ∈ rangechar ∧ 0x2160 ∈ rangechar ∧
    0xFF10 ∈ rangechar := by
  decide +kernel

theorem SameRange.mem {a b : Nat} (same : SameRange a b) : b ∈ rangechar := by
  obtain ⟨line, inLines, _, inLine⟩ := same
  exact mem_rangechar.mpr ⟨line, inLines, inLine⟩

section

variable (member : ch ∈ rangechar)

include member

theorem nextChar_mem : nextChar ch ∈ rangechar := by
  by_cases closed : Unclosed ch
  · rcases closed with rfl | rfl
    · rw [table_ends.1]
      exact table_ends_mem.2.1
    · rw [table_ends.2.1]
      exact table_ends_mem.2.2.1
  · exact (nextChar_spec member closed).1.mem

theorem prevChar_mem : prevChar ch ∈ rangechar := by
  by_cases opened : Unopened ch
  · rcases opened with rfl | rfl
    · rw [table_ends.2.2.2]
      exact table_ends_mem.2.2.2
    · rw [table_ends.2.2.1]
      exact table_ends_mem.1
  · exact (prevChar_spec member opened).1.mem

theorem prevChar_nextChar (notNine : ch ≠ 0x2089) : prevChar (nextChar ch) = ch := by
  by_cases closed : Unclosed ch
  · rcases closed with rfl | rfl
    · rw [table_ends.1, table_ends.2.2.1]
    · exact absurd rfl notNine
  · exact (nextChar_spec member closed).2

theorem nextChar_prevChar (notZero : ch ≠ 0x2070) : nextChar (prevChar ch) = ch := by
  by_cases opened : Unopened ch
  · rcases opened with rfl | rfl
    · exact absurd rfl notZero
    · rw [table_ends.2.2.1, table_ends.1]
  · exact (prevChar_spec member opened).2

end

theorem carrydigit_mem : ∀ pair ∈ carrydigit, pair.2 ∈ rangechar := by
  decide +kernel

theorem carryOf_mem (member : ch ∈ rangechar) : carryOf ch ∈ rangechar := by
  rw [carryOf]
  cases found : carrydigit.lookup ch with
  | none => exact member
  | some digit =>
    obtain ⟨front, back, split, _⟩ := lookup_eq_some_iff.mp found
    exact carrydigit_mem (ch, digit) (by simp [split])

theorem point_notMem : 46 ∉ rangechar := by
  decide +kernel

end RakudoStar.Text
