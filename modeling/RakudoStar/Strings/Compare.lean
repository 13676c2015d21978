import Mathlib.Order.Lattice.Nat
import RakudoStar.Strings.Vtable

/-!
# Equality, order and hash values of strings

The `equal`, `compare` and `hash` entries of the vtables: by two iterators, by memory, or by an
iterator beside the bytes. All see the code points and nothing else.
-/

namespace RakudoStar.Strings

open Foundation List RakudoStar.Except

/-- `memcmp`, byte by byte up to the first difference: its sign. -/
def memcmp (left right : List UInt8) : Nat → Nat → Except Fault Int
  | 0, _ => .ok 0
  | count + 1, position => do
    let l ← read left position
    let r ← read right position
    if l = r then memcmp left right count (position + 1)
    else .ok (if l.toNat < r.toNat then -1 else 1)

/-- The loops of `encoding_equal` and `fixed8_equal` over pairs of code points. -/
def equalLoop {σ : Type} (pair : σ → Except Fault ((Nat × Nat) × σ)) : Nat → σ → Except Fault Bool
  | 0, _ => .ok true
  | count + 1, state => do
    let ((cl, cr), state) ← pair state
    if cl ≠ cr then .ok false else equalLoop pair count state

/-- The loops of `encoding_compare` and `fixed8_compare`. -/
def compareLoop {σ : Type} (pair : σ → Except Fault ((Nat × Nat) × σ)) : Nat → σ → Except Fault Int
  | 0, _ => .ok 0
  | count + 1, state => do
    let ((cl, cr), state) ← pair state
    if cl ≠ cr then .ok (if cl < cr then -1 else 1) else compareLoop pair count state

/-- The pair that two iterators see. -/
def iterPair (order : ByteOrder) (lhs rhs : ParrotString) (state : StringIter × StringIter) :
    Except Fault ((Nat × Nat) × (StringIter × StringIter)) := do
  let (cl, left) ← iterGetAndAdvanceOf order lhs state.1
  let (cr, right) ← iterGetAndAdvanceOf order rhs state.2
  .ok ((cl, cr), (left, right))

/-- The pair of a byte of the left string and what the iterator of the right one sees. -/
def bytePair (order : ByteOrder) (lhs rhs : ParrotString) (iter : StringIter) :
    Except Fault ((Nat × Nat) × StringIter) := do
  let cl ← read lhs.bytes iter.charpos
  let (cr, iter) ← iterGetAndAdvanceOf order rhs iter
  .ok ((cl.toNat, cr), iter)

def hashesDiffer (lhs rhs : ParrotString) : Bool :=
  lhs.hashval ≠ 0 && rhs.hashval ≠ 0 && lhs.hashval ≠ rhs.hashval

/-- What is checked before the contents; `same`: both arguments are one object. -/
def equalAround (same : Bool) (lhs rhs : ParrotString) (compared : Except Fault Bool) :
    Except Fault Bool :=
  if lhs.strlen ≠ rhs.strlen then .ok false
  else if lhs.strlen = 0 then .ok true
  else if same then .ok true
  else if hashesDiffer lhs rhs then .ok false
  else compared

def encodingEqual (order : ByteOrder) (same : Bool) (lhs rhs : ParrotString) : Except Fault Bool :=
  equalAround same lhs rhs
    (if lhs.encoding = rhs.encoding then
      (memcmp lhs.bytes rhs.bytes lhs.bytes.length 0).map (· == 0)
    else equalLoop (iterPair order lhs rhs) lhs.strlen (.init, .init))

def fixed8Equal (order : ByteOrder) (same : Bool) (lhs rhs : ParrotString) : Except Fault Bool :=
  equalAround same lhs rhs
    (if rhs.encoding.maxBytesPerCodepoint = 1 then
      (memcmp lhs.bytes rhs.bytes lhs.strlen 0).map (· == 0)
    else equalLoop (bytePair order lhs rhs) lhs.strlen .init)

def stringEqual (order : ByteOrder) (same : Bool) (lhs rhs : ParrotString) : Except Fault Bool :=
  match lhs.encoding with
  | .ascii | .latin1 | .binary => fixed8Equal order same lhs rhs
  | .utf8 | .utf16 | .ucs2 | .ucs4 => encodingEqual order same lhs rhs

/-- The end of both `compare` functions: the shorter string comes first. -/
def compareLengths (lLen rLen : Nat) : Int :=
  if lLen < rLen then -1 else if rLen < lLen then 1 else 0

/-- What is done around the comparison of the common part. -/
def compareAround (lhs rhs : ParrotString) (compared : Nat → Except Fault Int) : Except Fault Int :=
  if rhs.strlen = 0 then .ok (if lhs.strlen ≠ 0 then 1 else 0)
  else if lhs.strlen = 0 then .ok (-1)
  else do
    let minLen := if rhs.strlen < lhs.strlen then rhs.strlen else lhs.strlen
    let result ← compared minLen
    .ok (if result ≠ 0 then result else compareLengths lhs.strlen rhs.strlen)

def encodingCompare (order : ByteOrder) (lhs rhs : ParrotString) : Except Fault Int :=
  compareAround lhs rhs fun minLen => compareLoop (iterPair order lhs rhs) minLen (.init, .init)

def fixed8Compare (order : ByteOrder) (lhs rhs : ParrotString) : Except Fault Int :=
  compareAround lhs rhs fun minLen =>
    if rhs.encoding.maxBytesPerCodepoint = 1 then memcmp lhs.bytes rhs.bytes minLen 0
    else compareLoop (bytePair order lhs rhs) minLen .init

def stringCompare (order : ByteOrder) (lhs rhs : ParrotString) : Except Fault Int :=
  match lhs.encoding with
  | .ascii | .latin1 | .binary => fixed8Compare order lhs rhs
  | .utf8 | .utf16 | .ucs2 | .ucs4 => encodingCompare order lhs rhs

/-- The loop of `encoding_hash`. -/
def hashIterLoop (get : StringIter → Except Fault (Nat × StringIter)) :
    Nat → StringIter → UInt64 → Except Fault UInt64
  | 0, _, hashval => .ok hashval
  | count + 1, iter, hashval => do
    let (c, iter) ← get iter
    hashIterLoop get count iter (hashval + (hashval <<< 5) + UInt64.ofNat c)

/-- The loops of `Parrot_hash_buffer`, `ucs2_hash` and `ucs4_hash`: `*ptr++`. -/
def hashUnitLoop {U : Type} (toNat : U → Nat) (units : List U) :
    Nat → Nat → UInt64 → Except Fault UInt64
  | 0, _, hashval => .ok hashval
  | len + 1, ptr, hashval => do
    let unit ← read units ptr
    hashUnitLoop toNat units len (ptr + 1) (hashval + (hashval <<< 5) + UInt64.ofNat (toNat unit))

/-- `STRING_hash`: the hash value, and the string that keeps it. -/
def stringHash (order : ByteOrder) (s : ParrotString) (seed : UInt64) :
    Except Fault (UInt64 × ParrotString) := do
  let hashval ←
    match s.encoding with
    | .ascii | .latin1 | .binary => hashUnitLoop UInt8.toNat s.bytes s.strlen 0 seed
    | .utf8 | .utf16 => hashIterLoop (iterGetAndAdvanceOf order s) s.strlen .init seed
    | .ucs2 => hashUnitLoop UInt16.toNat (unitsOf order s.bytes) s.strlen 0 seed
    | .ucs4 => hashUnitLoop id (codesOf order s.bytes) s.strlen 0 seed
  .ok (hashval, { s with hashval })

/-- The first difference of two lists of code points, as a sign. -/
def firstDifference : List Nat → List Nat → Int
  | l :: left, r :: right =>
    if l = r then firstDifference left right else if l < r then -1 else 1
  | _, _ => 0

/-- The lexicographic order as a sign. -/
def lexSign (left right : List Nat) : Int :=
  if left < right then -1 else if left = right then 0 else 1

theorem firstDifference_eq_zero {left right : List Nat} (length : left.length = right.length) :
    firstDifference left right = 0 ↔ left = right := by
  induction left generalizing right with
  | nil =>
    cases right with
    | nil => exact ⟨fun _ => rfl, fun _ => rfl⟩
    | cons r right => cases length
  | cons l left ih =>
    cases right with
    | nil => cases length
    | cons r right =>
      have rest := ih (Nat.succ.inj length)
      rw [firstDifference]
      by_cases same : l = r
      · rw [if_pos same, rest, same]
        exact ⟨congrArg _, fun equal => (List.cons.inj equal).2⟩
      rw [if_neg same]
      constructor
      · intro zero
        split at zero <;> cases zero
      · intro equal
        exact absurd (List.cons.inj equal).1 same

theorem firstDifference_lengths (left right : List Nat) :
    (if firstDifference left right ≠ 0 then firstDifference left right
      else compareLengths left.length right.length) = lexSign left right := by
  induction left generalizing right with
  | nil =>
    cases right with
    | nil => rfl
    | cons r right =>
      have less : ([] : List Nat) < r :: right := List.Lex.nil
      rw [lexSign, if_pos less]
      rfl
  | cons l left ih =>
    cases right with
    | nil =>
      have notLess : ¬l :: left < [] := not_lt_nil _
      have notEqual : l :: left ≠ [] := cons_ne_nil _ _
      rw [lexSign, if_neg notLess, if_neg notEqual]
      rfl
    | cons r right =>
      have lengths : compareLengths (l :: left).length (r :: right).length =
          compareLengths left.length right.length := by
        simp [compareLengths]
      rw [firstDifference, lengths]
      by_cases same : l = r
      · subst same
        have less : l :: left < l :: right ↔ left < right := by
          simp
        have equal : l :: left = l :: right ↔ left = right := by simp
        simp only [if_true]
        rw [ih right, lexSign, lexSign]
        simp only [less, equal]
      rw [if_neg same]
      by_cases smaller : l < r
      · have less : l :: left < r :: right := cons_lt_cons_iff.mpr (.inl smaller)
        rw [lexSign, if_pos smaller, if_pos less]
        rfl
      have notLess : ¬l :: left < r :: right := by
        rw [cons_lt_cons_iff]
        rintro (smaller' | ⟨same', _⟩)
        · exact smaller smaller'
        · exact same same'
      have notEqual : l :: left ≠ r :: right := fun equal =>
        same (List.cons.inj equal).1
      rw [lexSign, if_neg smaller, if_neg notLess, if_neg notEqual]
      rfl

section

variable {σ : Type} {pair : σ → Except Fault ((Nat × Nat) × σ)} {state : Nat → σ}
  {left right : List Nat} {count k : Nat}

/-- The pairs a loop sees are those of two lists. -/
def SeesPairs (pair : σ → Except Fault ((Nat × Nat) × σ)) (state : Nat → σ)
    (left right : List Nat) : Prop :=
  ∀ k l r, left[k]? = some l → right[k]? = some r → pair (state k) = .ok ((l, r), state (k + 1))

theorem equalLoop_eq (sees : SeesPairs pair state left right)
    (length : left.length = right.length) (total : k + count = left.length) :
    equalLoop pair count (state k) = .ok (decide (left.drop k = right.drop k)) := by
  induction count generalizing k with
  | zero =>
    have last : k = left.length := total
    rw [equalLoop, last, drop_length, length, drop_length]
    rfl
  | succ count ih =>
    have insideLeft : k < left.length := by omega
    have insideRight : k < right.length := by omega
    have here := sees k _ _ (getElem?_eq_getElem insideLeft) (getElem?_eq_getElem insideRight)
    have lists : left.drop k = right.drop k ↔
        left[k] = right[k] ∧ left.drop (k + 1) = right.drop (k + 1) := by
      rw [drop_eq_getElem_cons insideLeft, drop_eq_getElem_cons insideRight, List.cons.injEq]
    rw [equalLoop, here, ok_bind]
    simp only [lists]
    by_cases same : left[k] = right[k]
    · rw [if_neg (not_not_intro same), ih (by omega)]
      simp only [same, true_and]
    · rw [if_pos same]
      simp only [same, false_and, decide_false]

theorem compareLoop_eq (sees : SeesPairs pair state left right)
    (total : k + count = min left.length right.length) : compareLoop pair count (state k) =
      .ok (firstDifference (left.drop k) (right.drop k)) := by
  induction count generalizing k with
  | zero =>
    have ended : left.drop k = [] ∨ right.drop k = [] := by
      rw [drop_eq_nil_iff, drop_eq_nil_iff]
      omega
    rw [compareLoop]
    rcases ended with nil | nil
    · rw [nil]
      rfl
    · rw [nil]
      cases left.drop k <;> rfl
  | succ count ih =>
    have insideLeft : k < left.length := by omega
    have insideRight : k < right.length := by omega
    have here := sees k _ _ (getElem?_eq_getElem insideLeft) (getElem?_eq_getElem insideRight)
    rw [compareLoop, here, ok_bind, drop_eq_getElem_cons insideLeft,
      drop_eq_getElem_cons insideRight, firstDifference]
    simp only
    by_cases same : left[k] = right[k]
    · rw [if_neg (not_not_intro same), if_pos same, ih (by omega)]
    · rw [if_pos same, if_neg same]

end

theorem memcmp_bytes {left right : List Nat} (leftBound : ∀ c ∈ left, c < 256)
    (rightBound : ∀ c ∈ right, c < 256) {count k : Nat}
    (total : k + count = min left.length right.length) :
    memcmp (left.map UInt8.ofNat) (right.map UInt8.ofNat) count k =
      .ok (firstDifference (left.drop k) (right.drop k)) := by
  induction count generalizing k with
  | zero =>
    have ended : left.drop k = [] ∨ right.drop k = [] := by
      rw [drop_eq_nil_iff, drop_eq_nil_iff]
      omega
    rw [memcmp]
    rcases ended with nil | nil
    · rw [nil]
      rfl
    · rw [nil]
      cases left.drop k <;> rfl
  | succ count ih =>
    have insideLeft : k < left.length := by omega
    have insideRight : k < right.length := by omega
    have l : (UInt8.ofNat left[k]).toNat = left[k] :=
      toNat_ofNat_of_lt (leftBound _ (getElem_mem insideLeft))
    have r : (UInt8.ofNat right[k]).toNat = right[k] :=
      toNat_ofNat_of_lt (rightBound _ (getElem_mem insideRight))
    have same : UInt8.ofNat left[k] = UInt8.ofNat right[k] ↔ left[k] = right[k] := by
      rw [← UInt8.toNat_inj, l, r]
    have readLeft : read (left.map UInt8.ofNat) k = .ok (UInt8.ofNat left[k]) := by
      rw [read_of_lt (by rwa [length_map]), getElem_map]
    have readRight : read (right.map UInt8.ofNat) k = .ok (UInt8.ofNat right[k]) := by
      rw [read_of_lt (by rwa [length_map]), getElem_map]
    rw [memcmp, readLeft, ok_bind, readRight, ok_bind,
      drop_eq_getElem_cons insideLeft, drop_eq_getElem_cons insideRight, firstDifference, l, r]
    simp only [same]
    by_cases equal : left[k] = right[k]
    · rw [if_pos equal, if_pos equal, ih (by omega)]
    · rw [if_neg equal, if_neg equal]

variable (order : ByteOrder)

theorem unitsOf_bytesOf_append (units : List UInt16) (rest : List UInt8) :
    unitsOf order (bytesOf order units ++ rest) = units ++ unitsOf order rest := by
  induction units with
  | nil => rfl
  | cons unit units ih =>
    obtain ⟨first, second, split, joined⟩ := join_split order unit
    have unfolded : bytesOf order (unit :: units) ++ rest =
        first :: second :: (bytesOf order units ++ rest) := by
      rw [bytesOf, flatMap_cons, split]
      rfl
    rw [unfolded, unitsOf, joined, ih]
    rfl

variable {encoding : Encoding}

theorem spell_inj {l r : Nat} (left : encoding.Holds l)
    (right : encoding.Holds r) {x y : List UInt8}
    (same : encoding.spell order l ++ x = encoding.spell order r ++ y) : l = r := by
  have byte : ∀ {l r : Nat}, l < 256 → r < 256 → [UInt8.ofNat l] ++ x = [UInt8.ofNat r] ++ y →
      l = r := by
    intro l r left right same
    have first := congrArg UInt8.toNat (List.cons.inj same).1
    rwa [toNat_ofNat_of_lt left, toNat_ofNat_of_lt right] at first
  cases encoding with
  | ascii => exact byte (left.trans (by decide)) (right.trans (by decide)) same
  | latin1 | binary => exact byte left right same
  | utf8 => exact utf8Cursor.spell_inj left right same
  | utf16 =>
    have units := congrArg (unitsOf order) same
    simp only [Encoding.spell, unitsOf_bytesOf_append] at units
    exact utf16Cursor.spell_inj left right units
  | ucs2 =>
    have single : ∀ unit, bytesOf order [unit] = order.split unit := fun _ => append_nil _
    have whole : bytesOf order [UInt16.ofNat l] ++ x = bytesOf order [UInt16.ofNat r] ++ y := by
      rw [single, single]
      exact same
    have units := congrArg (unitsOf order) whole
    rw [unitsOf_bytesOf_append, unitsOf_bytesOf_append] at units
    have first := congrArg UInt16.toNat (List.cons.inj units).1
    rwa [toNat_ofNat16_of_lt left.2, toNat_ofNat16_of_lt right.2] at first
  | ucs4 =>
    have leftBound : l ≤ 0x10FFFF := left.2.2.2
    have rightBound : r ≤ 0x10FFFF := right.2.2.2
    have codes := congrArg (codesOf order) same
    simp only [Encoding.spell] at codes
    rw [codesOf_split4 order (by omega), codesOf_split4 order (by omega)] at codes
    exact (List.cons.inj codes).1

theorem exists_difference {left right : List UInt8} (noLeft : ¬left <+: right)
    (noRight : ¬right <+: left) :
    ∃ common l r x y, left = common ++ l :: x ∧ right = common ++ r :: y ∧ l ≠ r := by
  induction left generalizing right with
  | nil => exact absurd nil_prefix noLeft
  | cons l left ih =>
    cases right with
    | nil => exact absurd nil_prefix noRight
    | cons r right =>
      by_cases same : l = r
      · subst same
        rw [prefix_cons_inj] at noLeft noRight
        obtain ⟨common, l', r', x, y, rfl, rfl, differ⟩ := ih noLeft noRight
        exact ⟨l :: common, l', r', x, y, rfl, rfl, differ⟩
      · exact ⟨[], l, r, left, right, rfl, rfl, same⟩

theorem memcmp_common (before common leftRest rightRest : List UInt8) (count : Nat) :
    memcmp (before ++ common ++ leftRest) (before ++ common ++ rightRest) (common.length + count)
        before.length = memcmp (before ++ common ++ leftRest) (before ++ common ++ rightRest) count
        (before ++ common).length := by
  induction common generalizing before with
  | nil => simp
  | cons byte common ih =>
    have step : memcmp (before ++ byte :: (common ++ leftRest))
          (before ++ byte :: (common ++ rightRest)) (common.length + count) (before.length + 1) =
        memcmp (before ++ byte :: (common ++ leftRest))
          (before ++ byte :: (common ++ rightRest)) count
          (before.length + (common.length + 1)) := by
      simpa [add_assoc, add_comm] using ih (before ++ [byte])
    have readLeft : read (before ++ byte :: common ++ leftRest) before.length = .ok byte :=
      read_of_drop (by rw [append_assoc, drop_left]; rfl)
    have readRight : read (before ++ byte :: common ++ rightRest) before.length = .ok byte :=
      read_of_drop (by rw [append_assoc, drop_left]; rfl)
    have total : (byte :: common).length + count = common.length + count + 1 := by
      rw [length_cons]
      omega
    rw [total, memcmp, readLeft, ok_bind, readRight, ok_bind, if_pos rfl]
    simp only [append_assoc, cons_append, length_append, length_cons]
    rw [step]

theorem memcmp_differ (before leftRest rightRest : List UInt8) {l r : UInt8} (differ : l ≠ r)
    (count : Nat) : ∃ sign : Int, sign ≠ 0 ∧
      memcmp (before ++ l :: leftRest) (before ++ r :: rightRest) (count + 1) before.length =
        .ok sign := by
  refine ⟨if l.toNat < r.toNat then -1 else 1, ?_, ?_⟩
  · split <;> decide
  · rw [memcmp, read_of_drop drop_left, ok_bind, read_of_drop drop_left, ok_bind, if_neg differ]

/-- Comparing memory tells equality; it stops at the first difference. -/
theorem memcmp_text {left right : List Nat} (validLeft : (codeOf order encoding).AllValid left)
    (validRight : (codeOf order encoding).AllValid right) (length : left.length = right.length)
    (before : List UInt8) : ∃ sign : Int, (sign = 0 ↔ left = right) ∧
      memcmp (before ++ (codeOf order encoding).text left)
          (before ++ (codeOf order encoding).text right)
          ((codeOf order encoding).text left).length before.length = .ok sign := by
  induction left generalizing right before with
  | nil =>
    cases right with
    | nil => exact ⟨0, ⟨fun _ => rfl, fun _ => rfl⟩, rfl⟩
    | cons r right => cases length
  | cons l left ih =>
    cases right with
    | nil => cases length
    | cons r right =>
      rw [WordCode.text_cons, WordCode.text_cons]
      have holdsLeft := validLeft l mem_cons_self
      have holdsRight := validRight r mem_cons_self
      by_cases same : l = r
      · subst same
        obtain ⟨sign, zero, run⟩ := ih validLeft.tail validRight.tail
          (Nat.succ.inj length) (before ++ (codeOf order encoding).spell l)
        refine ⟨sign, zero.trans (by simp), ?_⟩
        rw [length_append, ← append_assoc, ← append_assoc, memcmp_common, run]
      have noLeft : ¬(codeOf order encoding).spell l <+: (codeOf order encoding).spell r := by
        rintro ⟨rest, whole⟩
        have aligned : (codeOf order encoding).spell l ++ rest =
            (codeOf order encoding).spell r ++ [] := whole.trans (append_nil _).symm
        exact same (spell_inj order holdsLeft holdsRight aligned)
      have noRight : ¬(codeOf order encoding).spell r <+: (codeOf order encoding).spell l := by
        rintro ⟨rest, whole⟩
        have aligned : (codeOf order encoding).spell r ++ rest =
            (codeOf order encoding).spell l ++ [] := whole.trans (append_nil _).symm
        exact same (spell_inj order holdsRight holdsLeft aligned).symm
      obtain ⟨common, a, b, x, y, leftWord, rightWord, differ⟩ := exists_difference noLeft noRight
      rw [leftWord, rightWord]
      obtain ⟨sign, nonzero, run⟩ := memcmp_differ (before ++ common)
        (x ++ (codeOf order encoding).text left) (y ++ (codeOf order encoding).text right)
        differ (x.length + ((codeOf order encoding).text left).length)
      refine ⟨sign, ?_, ?_⟩
      · exact ⟨fun zero => absurd zero nonzero, fun equal => absurd (List.cons.inj equal).1 same⟩
      have total : (common ++ a :: x ++ (codeOf order encoding).text left).length =
          common.length + (x.length + ((codeOf order encoding).text left).length + 1) := by
        simp only [length_append, length_cons]
        omega
      have passed := memcmp_common before common
        (a :: (x ++ (codeOf order encoding).text left))
        (b :: (y ++ (codeOf order encoding).text right))
        (x.length + ((codeOf order encoding).text left).length + 1)
      rw [total]
      simp only [append_assoc, cons_append] at passed run ⊢
      rw [passed]
      exact run

section

variable {order : ByteOrder} {seed : UInt64} {lhs rhs : ParrotString} {left right : List Nat}

theorem iterPair_sees (spellsLeft : Spells order seed lhs left)
    (spellsRight : Spells order seed rhs right) : SeesPairs (iterPair order lhs rhs)
      (fun k => (stringIterAt order lhs.encoding left k, stringIterAt order rhs.encoding right k))
      left right := by
  intro k l r foundLeft foundRight
  obtain ⟨insideLeft, rfl⟩ := List.getElem?_eq_some_iff.mp foundLeft
  obtain ⟨insideRight, rfl⟩ := List.getElem?_eq_some_iff.mp foundRight
  rw [iterPair]
  simp only
  rw [iterGetAndAdvanceOf_at spellsLeft insideLeft, ok_bind]
  simp only
  rw [iterGetAndAdvanceOf_at spellsRight insideRight, ok_bind]

theorem bytePair_sees (spellsLeft : Spells order seed lhs left)
    (single : lhs.encoding.maxBytesPerCodepoint = 1) (spellsRight : Spells order seed rhs right) :
    SeesPairs (bytePair order lhs rhs) (stringIterAt order rhs.encoding right) left right := by
  intro k l r foundLeft foundRight
  obtain ⟨insideRight, rfl⟩ := List.getElem?_eq_some_iff.mp foundRight
  obtain ⟨insideLeft, rfl⟩ := List.getElem?_eq_some_iff.mp foundLeft
  obtain ⟨bytes, bound⟩ := spellsLeft.single single
  have byte : read lhs.bytes k = .ok (UInt8.ofNat left[k]) := by
    rw [bytes, read_of_lt (by rwa [length_map]), getElem_map]
  have value : (UInt8.ofNat left[k]).toNat = left[k] :=
    toNat_ofNat_of_lt (bound _ (getElem_mem insideLeft))
  rw [bytePair]
  simp only [stringIterAt] at byte ⊢
  rw [byte, ok_bind]
  have seen := iterGetAndAdvanceOf_at spellsRight insideRight
  simp only [stringIterAt] at seen
  rw [seen, ok_bind, value]

theorem equalLoop_strings {σ : Type} {pair : σ → Except Fault ((Nat × Nat) × σ)}
    {state : Nat → σ} (sees : SeesPairs pair state left right)
    (length : left.length = right.length) :
    equalLoop pair left.length (state 0) = .ok (decide (left = right)) := by
  have run := equalLoop_eq sees length (zero_add left.length)
  rwa [drop_zero, drop_zero] at run

section
variable (spellsLeft : Spells order seed lhs left)
include spellsLeft

section
variable (spellsRight : Spells order seed rhs right)
include spellsRight

theorem hashesDiffer_ne (differ : hashesDiffer lhs rhs = true) : left ≠ right := by
  intro equal
  simp only [hashesDiffer, Bool.and_eq_true, decide_eq_true_eq] at differ
  obtain ⟨⟨leftSet, rightSet⟩, unequal⟩ := differ
  rcases spellsLeft.cached with unset | leftHash
  · exact leftSet unset
  rcases spellsRight.cached with unset | rightHash
  · exact rightSet unset
  · apply unequal
    rw [leftHash, rightHash, equal]

theorem equalAround_eq {same : Bool} (sameCodes : same = true → left = right)
    {compared : Except Fault Bool}
    (contents : left.length = right.length → compared = .ok (decide (left = right))) :
    equalAround same lhs rhs compared = .ok (decide (left = right)) := by
  unfold equalAround
  rw [spellsLeft.strlen, spellsRight.strlen]
  by_cases length : left.length = right.length
  · rw [if_neg (not_not_intro length)]
    split
    · rename_i empty
      have nilLeft := eq_nil_of_length_eq_zero empty
      have nilRight := eq_nil_of_length_eq_zero (length.symm.trans empty)
      rw [nilLeft, nilRight]
      rfl
    split
    · rename_i identical
      rw [decide_eq_true (sameCodes identical)]
    split
    · rename_i differ
      rw [decide_eq_false (hashesDiffer_ne spellsLeft spellsRight differ)]
    · exact contents length
  · have unequal : left ≠ right := fun equal => length (congrArg List.length equal)
    rw [if_pos length, decide_eq_false unequal]

theorem stringEqual_eq {same : Bool} (sameCodes : same = true → left = right) :
    stringEqual order same lhs rhs = .ok (decide (left = right)) := by
  have general : encodingEqual order same lhs rhs = .ok (decide (left = right)) := by
    apply equalAround_eq spellsLeft spellsRight sameCodes
    intro length
    split
    · rename_i oneEncoding
      have validRight := spellsRight.holds
      have bytesRight := spellsRight.bytes
      rw [← oneEncoding] at validRight bytesRight
      obtain ⟨sign, zero, run⟩ := memcmp_text order spellsLeft.holds validRight length []
      simp only [nil_append, length_nil] at run
      rw [spellsLeft.bytes, bytesRight, run, Except.map, Bool.beq_eq_decide_eq]
      simp only [zero]
    · rw [spellsLeft.strlen]
      exact equalLoop_strings (iterPair_sees spellsLeft spellsRight) length
  have bytes (single : lhs.encoding.maxBytesPerCodepoint = 1) :
      fixed8Equal order same lhs rhs = .ok (decide (left = right)) := by
    apply equalAround_eq spellsLeft spellsRight sameCodes
    intro length
    split
    · rename_i singleRight
      obtain ⟨bytesLeft, boundLeft⟩ := spellsLeft.single single
      obtain ⟨bytesRight, boundRight⟩ := spellsRight.single singleRight
      have run := @memcmp_bytes left right boundLeft boundRight left.length 0 (by omega)
      rw [spellsLeft.strlen, bytesLeft, bytesRight, run, Except.map, Bool.beq_eq_decide_eq,
        drop_zero, drop_zero]
      simp only [firstDifference_eq_zero length]
    · rw [spellsLeft.strlen]
      have run := equalLoop_strings (bytePair_sees spellsLeft single spellsRight) length
      exact run
  unfold stringEqual
  cases encoding : lhs.encoding with
  | ascii | latin1 | binary => exact bytes (by rw [encoding]; rfl)
  | utf8 | utf16 | ucs2 | ucs4 => exact general

/-- The first difference and the lengths give the order of the code points. -/
theorem compareAround_eq {compared : Nat → Except Fault Int}
    (contents : compared (min left.length right.length) = .ok (firstDifference left right)) :
    compareAround lhs rhs compared = .ok (lexSign left right) := by
  unfold compareAround
  rw [spellsLeft.strlen, spellsRight.strlen]
  have order := firstDifference_lengths left right
  by_cases noRight : right.length = 0
  · have nil := eq_nil_of_length_eq_zero noRight
    subst nil
    rw [if_pos noRight]
    cases left with
    | nil => rfl
    | cons l left =>
      rw [← order]
      rfl
  rw [if_neg noRight]
  by_cases noLeft : left.length = 0
  · have nil := eq_nil_of_length_eq_zero noLeft
    subst nil
    rw [if_pos noLeft]
    cases right with
    | nil => exact absurd rfl noRight
    | cons r right =>
      rw [← order]
      rfl
  have least : (if right.length < left.length then right.length else left.length) =
      min left.length right.length := by
    split <;> omega
  rw [if_neg noLeft]
  simp only [least]
  rw [contents, ok_bind, order]

theorem stringCompare_eq : stringCompare order lhs rhs = .ok (lexSign left right) := by
  have general : encodingCompare order lhs rhs = .ok (lexSign left right) := by
    apply compareAround_eq spellsLeft spellsRight
    have run := compareLoop_eq (iterPair_sees spellsLeft spellsRight) (zero_add _)
    rwa [drop_zero, drop_zero] at run
  have bytes (single : lhs.encoding.maxBytesPerCodepoint = 1) :
      fixed8Compare order lhs rhs = .ok (lexSign left right) := by
    apply compareAround_eq spellsLeft spellsRight
    split
    · rename_i singleRight
      obtain ⟨bytesLeft, boundLeft⟩ := spellsLeft.single single
      obtain ⟨bytesRight, boundRight⟩ := spellsRight.single singleRight
      have run := memcmp_bytes boundLeft boundRight (zero_add _)
      rwa [← bytesLeft, ← bytesRight, drop_zero, drop_zero] at run
    · have run := compareLoop_eq (bytePair_sees spellsLeft single spellsRight) (zero_add _)
      rwa [drop_zero, drop_zero] at run
  unfold stringCompare
  cases encoding : lhs.encoding with
  | ascii | latin1 | binary => exact bytes (by rw [encoding]; rfl)
  | utf8 | utf16 | ucs2 | ucs4 => exact general

end

end

end

variable {cs : List Nat} {str : ParrotString} {order : ByteOrder} {seed : UInt64}

theorem hashIterLoop_eq
    (spells : Spells order seed str cs) {count k : Nat} (total : k + count = cs.length)
    (hashval : UInt64) : hashIterLoop (iterGetAndAdvanceOf order str) count
        (stringIterAt order str.encoding cs k) hashval = .ok (hashOf hashval (cs.drop k)) := by
  induction count generalizing k hashval with
  | zero =>
    have last : k = cs.length := total
    rw [hashIterLoop, last, drop_length]
    rfl
  | succ count ih =>
    have inside : k < cs.length := by omega
    rw [hashIterLoop, iterGetAndAdvanceOf_at spells inside, ok_bind]
    simp only
    rw [ih (by omega), drop_eq_getElem_cons inside]
    rfl

theorem hashUnitLoop_eq {U : Type} {toNat : U → Nat} {units : List U}
    (same : ∀ k : Nat, (units[k]?).map toNat = cs[k]?) {count k : Nat}
    (total : k + count = cs.length) (hashval : UInt64) :
    hashUnitLoop toNat units count k hashval = .ok (hashOf hashval (cs.drop k)) := by
  induction count generalizing k hashval with
  | zero =>
    have last : k = cs.length := total
    rw [hashUnitLoop, last, drop_length]
    rfl
  | succ count ih =>
    have inside : k < cs.length := by omega
    obtain ⟨unit, taken, value⟩ := read_of_map (same k) inside
    rw [hashUnitLoop, taken, ok_bind, value, ih (by omega), drop_eq_getElem_cons inside]
    rfl

/-- `STRING_hash` depends on the code points and the seed alone. -/
theorem stringHash_eq
    (spells : Spells order seed str cs) (hashval : UInt64) : stringHash order str hashval =
      .ok (hashOf hashval cs, { str with hashval := hashOf hashval cs }) := by
  have holds := spells.holds
  have bytes := spells.bytes
  have single := spells.single
  have byIterator := hashIterLoop_eq spells (zero_add cs.length) hashval
  rw [drop_zero] at byIterator
  unfold stringHash
  rw [spells.strlen]
  cases encoding : str.encoding with
  | ascii | latin1 | binary =>
    rw [encoding] at single
    obtain ⟨bytes, bound⟩ := single rfl
    simp only [bytes]
    rw [hashUnitLoop_eq (map_bytes bound) (zero_add _), drop_zero, ok_bind]
  | utf8 | utf16 =>
    have start : stringIterAt order str.encoding cs 0 = .init := rfl
    simp only
    rw [← start, byIterator, ok_bind]
  | ucs2 =>
    rw [encoding, text_ucs2] at bytes
    rw [encoding] at holds
    have bound : ∀ c ∈ cs, c < 65536 := fun c member => (holds c member).2
    simp only [bytes, unitsOf_bytesOf]
    rw [hashUnitLoop_eq (map_ucs2 bound) (zero_add _), drop_zero, ok_bind]
  | ucs4 =>
    rw [encoding] at bytes holds
    simp only [bytes, codesOf_text order holds]
    rw [hashUnitLoop_eq (fun _ => Option.map_id_apply) (zero_add _), drop_zero, ok_bind]

end RakudoStar.Strings
