import RakudoStar.Foundation.First
import RakudoStar.Strings.Spelling

/-!
# Searching for a string in a string

The search by iterators, and that of `memchr` and `memcmp` in the memory of strings of one byte
a character, which goes on behind the string.
-/

namespace RakudoStar.Strings

open Foundation List RakudoStar.Except

/-- The body of the fixed-width `iter_get` functions. -/
def fixedGet {U : Type} (toNat : U → Nat) (ptr : List U) (i : StringIter) (offset : Int) :
    Except Fault Nat :=
  (read ptr (i.charpos + offset).toNat).map toNat

def iterGetOf (order : ByteOrder) (str : ParrotString) (i : StringIter) (offset : Int) :
    Except Fault Nat :=
  match str.encoding with
  | .ascii | .latin1 | .binary => fixedGet UInt8.toNat str.bytes i offset
  | .utf8 => utf8IterGet str.bytes i offset
  | .utf16 => utf16IterGet order str.bytes i offset
  | .ucs2 => fixedGet UInt16.toNat (unitsOf order str.bytes) i offset
  | .ucs4 => fixedGet id (codesOf order str.bytes) i offset

/-- The inner loop of the searches: the iterator behind a match. -/
def matchLoop (order : ByteOrder) (src search : ParrotString) :
    Nat → StringIter → StringIter → Except Fault (Option StringIter)
  | 0, iter, _ => .ok (some iter)
  | left + 1, iter, searchIter => do
    let (c1, iter) ← iterGetAndAdvanceOf order src iter
    let (c2, searchIter) ← iterGetAndAdvanceOf order search searchIter
    if c1 = c2 then matchLoop order src search left iter searchIter else .ok none

/-- The outer loop of `Parrot_str_iter_index`, with the number of places that are left. -/
def iterIndexLoop (order : ByteOrder) (src search : ParrotString) (c0 : Nat)
    (searchStart : StringIter) : Nat → StringIter → Except Fault (Option (StringIter × StringIter))
  | 0, _ => .ok none
  | gap + 1, start => do
    let (c1, nextStart) ← iterGetAndAdvanceOf order src start
    if c1 = c0 then do
      let matched ←
        matchLoop order src search (search.strlen - searchStart.charpos) nextStart searchStart
      match matched with
      | some stop => .ok (some (start, stop))
      | none => iterIndexLoop order src search c0 searchStart gap nextStart
    else iterIndexLoop order src search c0 searchStart gap nextStart

/-- `Parrot_str_iter_index`: the iterators at both ends of the search string, if it is found. -/
def strIterIndex (order : ByteOrder) (src : ParrotString) (start : StringIter)
    (search : ParrotString) : Except Fault (Option (StringIter × StringIter)) :=
  if search.strlen = 0 then .ok (some (start, start))
  else do
    let (c0, searchStart) ← iterGetAndAdvanceOf order search .init
    iterIndexLoop order src search c0 searchStart
      (src.strlen + 1 - (start.charpos + search.strlen)) start

def encodingIndex (order : ByteOrder) (src search : ParrotString) (offset : Int) :
    Except Fault Int :=
  if offset < 0 ∨ src.strlen ≤ offset ∨ search.strlen = 0 then .ok (-1)
  else do
    let start ← iterSkipOf order src .init offset
    let found ← strIterIndex order src start search
    .ok (match found with
      | some (start, _) => start.charpos
      | none => -1)

/-- The comparison of `encoding_rindex` at one place. -/
def rindexMatch (order : ByteOrder) (src search : ParrotString) (c0 : Nat)
    (searchStart start : StringIter) : Except Fault (Option StringIter) := do
  let c1 ← iterGetOf order src start 0
  if c1 = c0 then do
    let iter ← iterSkipOf order src start 1
    matchLoop order src search (search.strlen - searchStart.charpos) iter searchStart
  else .ok none

/-- `while (1)` of `encoding_rindex`, with the number of places that are left. -/
def encodingRindexLoop (order : ByteOrder) (src search : ParrotString) (c0 : Nat)
    (searchStart : StringIter) : Nat → StringIter → Except Fault Int
  | 0, _ => .ok (-1)
  | places + 1, start => do
    let matched ← rindexMatch order src search c0 searchStart start
    match matched with
    | some _ => .ok start.charpos
    | none =>
      if start.charpos = 0 then .ok (-1)
      else do
        let start ← iterSkipOf order src start (-1)
        encodingRindexLoop order src search c0 searchStart places start

def encodingRindex (order : ByteOrder) (src search : ParrotString) (offset : Int) :
    Except Fault Int :=
  if offset < 0 ∨ search.strlen = 0 ∨ src.strlen < search.strlen then .ok (-1)
  else do
    let last : Int := (src.strlen - search.strlen : Nat)
    let skip := if offset < last then offset else last
    let start ← iterSkipOf order src .init skip
    let (c0, searchStart) ← iterGetAndAdvanceOf order search .init
    encodingRindexLoop order src search c0 searchStart (start.charpos + 1) start

/-- `memchr`, byte by byte up to the one looked for. -/
def memchr (memory : List UInt8) (byte : UInt8) (position count : Nat) :
    Except Fault (Option Nat) := do
  let found ← firstFrom (fun p => (read memory p).map (· == byte)) (position + count) count position
  .ok (if found < position + count then some found else none)

/-- The loop of `Parrot_util_byte_index`, from place to place. -/
def byteIndexLoop (memory needle : List UInt8) (first : UInt8) (strLen : Nat) :
    Nat → Nat → Nat → Except Fault Int
  | 0, _, _ => .ok (-1)
  | rounds + 1, strPos, lenRemain => do
    let searchPos ← memchr memory first strPos lenRemain
    match searchPos with
    | none => .ok (-1)
    | some offset => do
      let sign ← memcmp (memory.drop offset) needle needle.length 0
      if sign = 0 then .ok offset
      else if strLen - offset < needle.length then .ok (-1)
      else byteIndexLoop memory needle first strLen rounds (offset + 1) (strLen - offset)

/-- `Parrot_util_byte_index` of a string of `strLen` bytes in the memory. -/
def byteIndex (memory : List UInt8) (strLen : Nat) (needle : List UInt8) (startOffset : Nat) :
    Except Fault Int := do
  let first ← read needle 0
  byteIndexLoop memory needle first strLen (strLen + 1) startOffset (strLen - startOffset)

/-- The loop of `Parrot_util_byte_rindex`, with the number of places that are left. -/
def byteRindexLoop (memory needle : List UInt8) : Nat → Except Fault Int
  | 0 => .ok (-1)
  | currentOffset + 1 => do
    let sign ← memcmp (memory.drop currentOffset) needle needle.length 0
    if sign = 0 then .ok currentOffset else byteRindexLoop memory needle currentOffset

def byteRindex (memory : List UInt8) (strLen : Nat) (needle : List UInt8) (startOffset : Nat) :
    Except Fault Int :=
  -- an `UINTVAL`, which wraps when the search string is longer
  let maxPossibleOffset := (strLen + (2 ^ 64 - needle.length)) % 2 ^ 64
  let maxPossibleOffset :=
    if startOffset ≠ 0 ∧ startOffset < maxPossibleOffset then startOffset else maxPossibleOffset
  -- an `INTVAL`
  if 2 ^ 63 ≤ maxPossibleOffset then .ok (-1)
  else byteRindexLoop memory needle (maxPossibleOffset + 1)

def fixed8Index (order : ByteOrder) (src : ParrotString) (beyond : List UInt8)
    (search : ParrotString) (offset : Int) : Except Fault Int :=
  if search.encoding.maxBytesPerCodepoint ≠ 1 then encodingIndex order src search offset
  else if offset < 0 ∨ src.strlen ≤ offset ∨ search.strlen = 0 then .ok (-1)
  else byteIndex (src.bytes ++ beyond) src.strlen search.bytes offset.toNat

def fixed8Rindex (order : ByteOrder) (src : ParrotString) (beyond : List UInt8)
    (search : ParrotString) (offset : Int) : Except Fault Int :=
  if search.encoding.maxBytesPerCodepoint ≠ 1 then encodingRindex order src search offset
  else if offset < 0 ∨ search.strlen = 0 then .ok (-1)
  else byteRindex (src.bytes ++ beyond) src.strlen search.bytes offset.toNat

def stringIndex (order : ByteOrder) (src : ParrotString) (beyond : List UInt8)
    (search : ParrotString) (offset : Int) : Except Fault Int :=
  match src.encoding with
  | .ascii | .latin1 | .binary => fixed8Index order src beyond search offset
  | .utf8 | .utf16 | .ucs2 | .ucs4 => encodingIndex order src search offset

def stringRindex (order : ByteOrder) (src : ParrotString) (beyond : List UInt8)
    (search : ParrotString) (offset : Int) : Except Fault Int :=
  match src.encoding with
  | .ascii | .latin1 | .binary => fixed8Rindex order src beyond search offset
  | .utf8 | .utf16 | .ucs2 | .ucs4 => encodingRindex order src search offset

section

variable {order : ByteOrder} {seed : UInt64} {src search : ParrotString} {cs ds : List Nat}
  {k j left : Nat}

theorem iterGetOf_at (spells : Spells order seed src cs) (inside : k < cs.length) :
    iterGetOf order src (stringIterAt order src.encoding cs k) 0 = .ok cs[k] := by
  have holds := spells.holds
  have bytes := spells.bytes
  have fixed : ∀ {U : Type} {toNat : U → Nat} {units : List U} (encoding : Encoding),
      (units[k]?).map toNat = cs[k]? →
      fixedGet toNat units (stringIterAt order encoding cs k) 0 = .ok cs[k] := by
    intro U toNat units encoding same
    have here : ((stringIterAt order encoding cs k).charpos + (0 : Int)).toNat = k := by
      rw [stringIterAt]
      dsimp only
      omega
    rw [fixedGet, here]
    exact map_eq_ok_iff.mpr (read_of_map same inside)
  have low : 0 ≤ (k : Int) + 0 := by omega
  have here : ((k : Int) + 0).toNat = k := by omega
  have there : ((k : Int) + 0).toNat < cs.length := here.symm ▸ inside
  unfold iterGetOf
  cases encoding : src.encoding with
  | ascii | latin1 | binary =>
    obtain ⟨bytes, bound⟩ := spells.single (by rw [encoding]; rfl)
    rw [bytes]
    exact fixed _ (map_bytes bound k)
  | utf8 =>
    rw [encoding] at bytes holds
    have got := iterGet_boundary utf8Cursor one_pos holds low inside.le there
    simp only [iterAt, one_mul, here] at got
    rw [bytes]
    exact got
  | utf16 =>
    rw [encoding, text_utf16] at bytes
    rw [encoding] at holds
    have got := iterGet_boundary utf16Cursor two_pos holds low inside.le there
    simp only [here] at got
    simp only [bytes, utf16IterGet, unitsOf_bytesOf, stringIterAt, boundary_utf16]
    exact got
  | ucs2 =>
    rw [encoding, text_ucs2] at bytes
    rw [encoding] at holds
    rw [bytes, unitsOf_bytesOf]
    exact fixed _ (map_ucs2 (fun c member => (holds c member).2) k)
  | ucs4 =>
    rw [encoding] at bytes holds
    rw [bytes, codesOf_text order holds]
    exact fixed _ Option.map_id_apply

theorem matchLoop_eq (spells : Spells order seed src cs)
    (spellsSearch : Spells order seed search ds) (total : j + left = ds.length)
    (room : k + left ≤ cs.length) :
    matchLoop order src search left (stringIterAt order src.encoding cs k)
        (stringIterAt order search.encoding ds j) = .ok (if ds.drop j <+: cs.drop k then
        some (stringIterAt order src.encoding cs (k + left)) else none) := by
  induction left generalizing k j with
  | zero =>
    have nothing : ds.drop j = [] := drop_eq_nil_of_le (by omega)
    rw [matchLoop, nothing, if_pos nil_prefix, add_zero]
  | succ left ih =>
    have here : k < cs.length := by omega
    have there : j < ds.length := by omega
    have next := @ih (k + 1) (j + 1) (by omega) (by omega)
    rw [matchLoop, iterGetAndAdvanceOf_at spells here, ok_bind]
    dsimp only
    rw [iterGetAndAdvanceOf_at spellsSearch there, ok_bind,
      drop_eq_getElem_cons here, drop_eq_getElem_cons there]
    by_cases same : cs[k] = ds[j]
    · rw [if_pos same, next, same]
      simp only [prefix_cons_inj, add_assoc, add_comm 1 left]
    · rw [if_neg same, if_neg fun begins => same (cons_prefix_cons.mp begins).1.symm]

/-- The search string stands at a place if its first code point does and the rest follows. -/
theorem occurs_iff (inside : k < cs.length) (nonempty : 0 < ds.length) :
    Occurs ds cs k ↔ cs[k] = ds[0] ∧ ds.drop 1 <+: cs.drop (k + 1) := by
  have first : ds = ds[0] :: ds.drop 1 := drop_eq_getElem_cons nonempty
  conv_lhs => rw [Occurs, first, drop_eq_getElem_cons inside, cons_prefix_cons]
  rw [eq_comm]

theorem not_occurs (nonempty : 0 < ds.length) (beyond : cs.length < k + ds.length) :
    ¬Occurs ds cs k := fun occurs =>
  absurd (occurs.fits (ne_nil_of_length_pos nonempty)) beyond.not_ge

/-- What a search leaves: the iterators around the first place from one on, or nothing. -/
inductive FoundFrom (order : ByteOrder) (src : ParrotString) (cs ds : List Nat) (k : Nat) :
    Option (StringIter × StringIter) → Prop where
  | found (p : Nat) (atLeast : k ≤ p) (here : Occurs ds cs p)
      (before : ∀ q, k ≤ q → q < p → ¬Occurs ds cs q) :
      FoundFrom order src cs ds k (some (stringIterAt order src.encoding cs p,
        stringIterAt order src.encoding cs (p + ds.length)))
  | none (nowhere : ∀ q, k ≤ q → ¬Occurs ds cs q) : FoundFrom order src cs ds k none

theorem FoundFrom.of_succ {found : Option (StringIter × StringIter)} (fails : ¬Occurs ds cs k)
    (later : FoundFrom order src cs ds (k + 1) found) : FoundFrom order src cs ds k found := by
  cases later with
  | found p atLeast here before =>
    apply FoundFrom.found p (Nat.le_of_succ_le atLeast) here
    intro q from_ below
    rcases lt_or_eq_of_le from_ with beyond | rfl
    · exact before q beyond below
    · exact fails
  | none nowhere =>
    apply FoundFrom.none
    intro q from_
    rcases lt_or_eq_of_le from_ with beyond | rfl
    · exact nowhere q beyond
    · exact fails

section
variable (spells : Spells order seed src cs)
include spells

theorem iterIndexLoop_spec (spellsSearch : Spells order seed search ds) (nonempty : 0 < ds.length)
    {gap : Nat} (total : gap = cs.length + 1 - (k + ds.length)) :
    ∃ found, iterIndexLoop order src search ds[0] (stringIterAt order search.encoding ds 1) gap
        (stringIterAt order src.encoding cs k) = .ok found ∧ FoundFrom order src cs ds k found := by
  induction gap generalizing k with
  | zero =>
    refine ⟨none, rfl, FoundFrom.none fun q from_ => not_occurs nonempty ?_⟩
    omega
  | succ gap ih =>
    have here : k < cs.length := by omega
    have rest : search.strlen - 1 = ds.length - 1 := congrArg (· - 1) spellsSearch.strlen
    obtain ⟨found, run, spec⟩ := @ih (k + 1) (by omega)
    have same := occurs_iff here nonempty
    rw [iterIndexLoop, iterGetAndAdvanceOf_at spells here, ok_bind]
    dsimp only
    by_cases first : cs[k] = ds[0]
    · have matched := @matchLoop_eq order seed src search cs ds (k + 1) 1 (ds.length - 1) spells
        spellsSearch (by omega) (by omega)
      have stop : k + 1 + (ds.length - 1) = k + ds.length := by omega
      rw [stop] at matched
      have position : (stringIterAt order search.encoding ds 1).charpos = 1 := rfl
      rw [if_pos first, position, rest, matched, ok_bind]
      by_cases follows : ds.drop 1 <+: cs.drop (k + 1)
      · rw [if_pos follows]
        exact ⟨_, rfl, FoundFrom.found k le_rfl (same.mpr ⟨first, follows⟩)
          fun q from_ below => absurd below from_.not_gt⟩
      · rw [if_neg follows]
        exact ⟨found, run, spec.of_succ fun occurs => follows (same.mp occurs).2⟩
    · rw [if_neg first]
      exact ⟨found, run, spec.of_succ fun occurs => first (same.mp occurs).1⟩

/-- `Parrot_str_iter_index` finds the first place from the iterator on. -/
theorem strIterIndex_spec (spellsSearch : Spells order seed search ds) (k : Nat) :
    ∃ found, strIterIndex order src (stringIterAt order src.encoding cs k) search = .ok found ∧
      FoundFrom order src cs ds k found := by
  unfold strIterIndex
  by_cases empty : ds.length = 0
  · obtain rfl := eq_nil_of_length_eq_zero empty
    have none : search.strlen = 0 := spellsSearch.strlen
    rw [if_pos none]
    exact ⟨_, rfl, FoundFrom.found k le_rfl nil_prefix
      fun q from_ below => absurd below from_.not_gt⟩
  have nonempty : 0 < ds.length := Nat.pos_of_ne_zero empty
  have position : (stringIterAt order src.encoding cs k).charpos = k := rfl
  have first := iterGetAndAdvanceOf_at spellsSearch nonempty
  rw [if_neg (by rw [spellsSearch.strlen]; exact empty)]
  have initial : stringIterAt order search.encoding ds 0 = .init := rfl
  rw [initial] at first
  rw [first, ok_bind]
  rw [position, spells.strlen, spellsSearch.strlen]
  exact iterIndexLoop_spec spells spellsSearch nonempty rfl

/-- What `STRING_index` shall return. -/
def IndexSpec (cs ds : List Nat) (offset result : Int) : Prop :=
  if offset < 0 ∨ cs.length ≤ offset ∨ ds = [] then result = -1
  else FirstOrNone (Occurs ds cs) offset.toNat result

/-- What `STRING_rindex` shall return. -/
def RindexSpec (cs ds : List Nat) (offset result : Int) : Prop :=
  if offset < 0 ∨ ds = [] then result = -1 else LastOrNone (Occurs ds cs) offset.toNat result

theorem strlen_eq_zero_iff : src.strlen = 0 ↔ cs = [] := by
  rw [spells.strlen, length_eq_zero_iff]

section
variable (spellsSearch : Spells order seed search ds) (offset : Int)
include spellsSearch

theorem encodingIndex_spec : ∃ result, encodingIndex order src search offset = .ok result ∧
      IndexSpec cs ds offset result := by
  have outside : (offset < 0 ∨ src.strlen ≤ offset ∨ search.strlen = 0) ↔
      (offset < 0 ∨ cs.length ≤ offset ∨ ds = []) := by
    rw [strlen_eq_zero_iff spellsSearch, spells.strlen]
  unfold encodingIndex IndexSpec
  by_cases without : offset < 0 ∨ cs.length ≤ offset ∨ ds = []
  · rw [if_pos (outside.mpr without)]
    refine ⟨-1, rfl, ?_⟩
    rw [if_pos without]
  have inside : offset.toNat ≤ cs.length := by omega
  have whole : (offset.toNat : Int) = offset := by omega
  have skipped := iterSkip_init spells inside
  rw [whole] at skipped
  obtain ⟨found, run, spec⟩ := strIterIndex_spec spells spellsSearch offset.toNat
  rw [if_neg (mt outside.mp without), skipped, ok_bind, run]
  simp only [if_neg without]
  cases spec with
  | found p atLeast here before => exact ⟨p, rfl, FirstOrNone.found p atLeast here before⟩
  | none nowhere => exact ⟨-1, rfl, FirstOrNone.none nowhere⟩

theorem rindexMatch_eq (nonempty : 0 < ds.length) (fits : k + ds.length ≤ cs.length) :
    rindexMatch order src search ds[0] (stringIterAt order search.encoding ds 1)
        (stringIterAt order src.encoding cs k) =
      .ok (if Occurs ds cs k then some (stringIterAt order src.encoding cs (k + ds.length))
        else none) := by
  have here : k < cs.length := by omega
  have skipped := @iterSkipOf_at order seed src cs spells k 1 (by omega) (by omega) (by omega)
  have next : ((k : Int) + 1).toNat = k + 1 := by omega
  have position : (stringIterAt order search.encoding ds 1).charpos = 1 := rfl
  have rest : search.strlen - 1 = ds.length - 1 := congrArg (· - 1) spellsSearch.strlen
  have matched := @matchLoop_eq order seed src search cs ds (k + 1) 1 (ds.length - 1) spells
    spellsSearch (by omega) (by omega)
  have stop : k + 1 + (ds.length - 1) = k + ds.length := by omega
  have same := occurs_iff here nonempty
  rw [next] at skipped
  rw [stop] at matched
  rw [rindexMatch, iterGetOf_at spells here, ok_bind, skipped, ok_bind, position, rest, matched]
  by_cases first : cs[k] = ds[0]
  · rw [if_pos first]
    by_cases follows : ds.drop 1 <+: cs.drop (k + 1)
    · rw [if_pos follows, if_pos (same.mpr ⟨first, follows⟩)]
    · rw [if_neg follows, if_neg fun occurs => follows (same.mp occurs).2]
  · rw [if_neg first, if_neg fun occurs => first (same.mp occurs).1]

theorem encodingRindexLoop_spec (nonempty : 0 < ds.length) (room : k + ds.length ≤ cs.length) :
    ∃ result, encodingRindexLoop order src search ds[0] (stringIterAt order search.encoding ds 1)
        (k + 1) (stringIterAt order src.encoding cs k) = .ok result ∧
      LastOrNone (Occurs ds cs) k result := by
  have position : ∀ p, (stringIterAt order src.encoding cs p).charpos = p := fun _ => rfl
  induction k with
  | zero =>
    rw [encodingRindexLoop, rindexMatch_eq spells spellsSearch nonempty room, ok_bind]
    by_cases occurs : Occurs ds cs 0
    · rw [if_pos occurs]
      exact ⟨_, rfl, LastOrNone.at_end occurs⟩
    rw [if_neg occurs]
    refine ⟨-1, if_pos rfl, LastOrNone.none ?_⟩
    intro p upTo
    rwa [Nat.le_zero.mp upTo]
  | succ k ih =>
    rw [encodingRindexLoop, rindexMatch_eq spells spellsSearch nonempty room, ok_bind]
    by_cases occurs : Occurs ds cs (k + 1)
    · rw [if_pos occurs]
      exact ⟨_, rfl, LastOrNone.at_end occurs⟩
    obtain ⟨result, run, spec⟩ := ih (by omega)
    have skipped := @iterSkipOf_at order seed src cs spells (k + 1) (-1) (by omega) (by omega)
      (by omega)
    have previous : (((k + 1 : Nat) : Int) + -1).toNat = k := by omega
    rw [previous] at skipped
    rw [if_neg occurs]
    rw [if_neg (by rw [position]; exact Nat.succ_ne_zero k), skipped, ok_bind]
    exact ⟨result, run, spec.of_succ occurs⟩

theorem encodingRindex_spec : ∃ result, encodingRindex order src search offset = .ok result ∧
      RindexSpec cs ds offset result := by
  have lengths : src.strlen < search.strlen ↔ cs.length < ds.length := by
    rw [spells.strlen, spellsSearch.strlen]
  have empty := strlen_eq_zero_iff spellsSearch
  unfold encodingRindex RindexSpec
  by_cases without : offset < 0 ∨ ds = []
  · rw [if_pos (by tauto)]
    refine ⟨-1, rfl, ?_⟩
    rw [if_pos without]
  have nonempty : 0 < ds.length := length_pos_of_ne_nil fun none => without (.inr none)
  by_cases longer : cs.length < ds.length
  · rw [if_pos (.inr (.inr (lengths.mpr longer)))]
    refine ⟨-1, rfl, ?_⟩
    rw [if_neg without]
    exact LastOrNone.none fun p _ => not_occurs nonempty (by omega)
  have first := iterGetAndAdvanceOf_at spellsSearch nonempty
  have initial : stringIterAt order search.encoding ds 0 = .init := rfl
  rw [initial] at first
  have start : (if offset < ((src.strlen - search.strlen : Nat) : Int) then offset
      else ((src.strlen - search.strlen : Nat) : Int)) =
      (min offset.toNat (cs.length - ds.length) : Nat) := by
    rw [spells.strlen, spellsSearch.strlen]
    split <;> omega
  have position : ∀ p, (stringIterAt order src.encoding cs p).charpos = p := fun _ => rfl
  obtain ⟨result, run, spec⟩ := @encodingRindexLoop_spec order seed src search cs ds
    (min offset.toNat (cs.length - ds.length)) spells spellsSearch nonempty (by omega)
  rw [if_neg (by rw [lengths, empty]; tauto)]
  dsimp only
  rw [start, iterSkip_init spells (by omega), ok_bind, first, ok_bind]
  rw [position, run]
  refine ⟨result, rfl, ?_⟩
  rw [if_neg without]
  by_cases early : offset.toNat ≤ cs.length - ds.length
  · rwa [min_eq_left early] at spec
  · rw [min_eq_right (Nat.le_of_not_le early)] at spec
    exact spec.of_le (Nat.le_of_not_le early) fun p beyond _ => not_occurs nonempty (by omega)

end

end

end

end RakudoStar.Strings
