import RakudoStar.Buffers.Pack

/-!
# unpack undoes pack

A packing, a template with items in range for it, comes back exactly if every text has a
character and a string of hexadecimal digits passes for a number that is odd when its length is.
-/

namespace RakudoStar.Buffers

open Bigint Numeric RakudoStar.Except List

inductive NumberDirective where
  | C
  | S
  | v
  | L
  | V
  | n
  | N
  deriving DecidableEq, Repr

def NumberDirective.code : NumberDirective → Nat
  | C => 67
  | S => 83
  | v => 118
  | L => 76
  | V => 86
  | n => 110
  | N => 78

/-- How many bytes a number has. -/
def NumberDirective.width : NumberDirective → Nat
  | C => 1
  | S => 2
  | v => 2
  | L => 4
  | V => 4
  | n => 2
  | N => 4

/-- The weights of the bytes, in their order. -/
def NumberDirective.weights : NumberDirective → List Nat
  | C => [0x00]
  | S => [0x00, 0x08]
  | v => [0x00, 0x08]
  | L => [0x00, 0x08, 0x10, 0x18]
  | V => [0x00, 0x08, 0x10, 0x18]
  | n => [0x08, 0x00]
  | N => [0x18, 0x10, 0x08, 0x00]

/-- An amount in decimal digits. -/
structure Amount where
  digits : Digits 10
  plain : ∀ ch ∈ digits.text, ch ≠ 95

/-- A directive with an item in range for it. -/
inductive Entry where
  | number (directive : NumberDirective) (value : Nat) (inRange : value < 256 ^ directive.width)
  | text (amount : Amount) (string : List Nat) (ascii : ∀ ch ∈ string, ch < 128)
      (exact : string.length = amount.digits.value)

/-- A lower-case hexadecimal digit. -/
def LowerHex (ch : Nat) : Prop := 48 ≤ ch ∧ ch ≤ 57 ∨ 97 ≤ ch ∧ ch ≤ 102

/-- What a template may end with. -/
inductive Final where
  | nothing
  | star (string : List Nat) (ascii : ∀ ch ∈ string, ch < 128)
  | hex (string : List Nat) (lowerHex : ∀ ch ∈ string, LowerHex ch)

structure Packing where
  entries : List Entry
  final : Final

namespace Entry

def unit : Entry → Nat × List Nat
  | number directive _ _ => (directive.code, [])
  | text amount _ _ _ => (65, amount.digits.text)

def field : Entry → Field
  | number _ value _ => .int value
  | text _ string _ _ => .str string

/-- The bytes that the entry is packed into. -/
def bytes : Entry → List Nat
  | number directive value _ => directive.weights.map fun weight => value / 2 ^ weight % 0x100
  | text _ string _ _ => string

/-- The field that comes back. -/
def returned : Entry → Field
  | number _ value _ => .int value
  | text _ string _ _ => collected string

end Entry

namespace Final

def units : Final → List (Nat × List Nat)
  | nothing => []
  | star _ _ => [(65, [42])]
  | hex _ _ => [(72, [])]

def items : Final → List Field
  | nothing => []
  | star string _ => [.str string]
  | hex string _ => [.str string]

end Final

/-- A string of hexadecimal digits, with a zero behind it when its length is odd. -/
def padded (string : List Nat) : List Nat :=
  if string.length % 2 = 1 then string ++ [48] else string

/-- The fields that should come back. -/
def Final.expected : Final → List Field
  | nothing => []
  | star string _ => [.str string]
  | hex string _ => [.str (padded string)]

namespace Packing

def units (packing : Packing) : List (Nat × List Nat) :=
  packing.entries.map Entry.unit ++ packing.final.units

def template (packing : Packing) : List Nat :=
  packing.units.flatMap fun unit => unit.1 :: unit.2

def items (packing : Packing) : List Field :=
  packing.entries.map Entry.field ++ packing.final.items

def expected (packing : Packing) : List Field :=
  packing.entries.map Entry.field ++ packing.final.expected

end Packing

variable {fmt : DigitFormat} {N : Type} (packer : Packer fmt N)

/-- The fields come back, and no byte is left. -/
def RoundTrips (packing : Packing) : Prop :=
  ∃ bytes, packer.pack packing.template packing.items = .ok bytes ∧
    packer.unpack bytes packing.template = .ok (packing.expected, [])

variable {packer}

section

variable {units : List (Nat × List Nat)} (amount : Amount) (packing : Packing)

/-- The three forms of an amount. -/
inductive AmountText : List Nat → Prop
  | nothing : AmountText []
  | star : AmountText [42]
  | digits {text : List Nat} (nonempty : text ≠ []) (range : ∀ ch ∈ text, 48 ≤ ch ∧ ch ≤ 57) :
      AmountText text

theorem isDigit_of_range {ch : Nat} (range : 48 ≤ ch ∧ ch ≤ 57) : packer.isDigit ch = true := by
  rw [Packer.isDigit, if_pos (by omega)]
  exact decide_eq_true range

theorem isDigit_of_isLetter {ch : Nat} (letter : isLetter ch = true) :
    packer.isDigit ch = false ∧ ch ≠ 42 := by
  have range := of_decide_eq_true letter
  refine ⟨?_, by omega⟩
  rw [Packer.isDigit, if_pos (by omega)]
  exact decide_eq_false (by omega)

theorem takeWhile_of_head {rest : List Nat} (letters : ∀ ch ∈ rest.head?, isLetter ch = true) :
    rest.takeWhile packer.isDigit = [] ∧ rest.head? ≠ some 42 := by
  cases rest with
  | nil => exact ⟨rfl, by simp⟩
  | cons ch rest =>
    have other := @isDigit_of_isLetter fmt N packer ch (letters ch rfl)
    refine ⟨takeWhile_cons_of_neg (by simp [other.1]), ?_⟩
    simpa using other.2

theorem amountText_append {amount rest : List Nat} (isAmount : AmountText amount)
    (letters : ∀ ch ∈ rest.head?, isLetter ch = true) :
    packer.amountText (amount ++ rest) = amount := by
  obtain ⟨noDigits, noStar⟩ := @takeWhile_of_head fmt N packer rest letters
  cases isAmount with
  | nothing =>
    rw [nil_append, Packer.amountText, noDigits, if_neg (by simp), if_neg noStar]
  | star =>
    have notDigit : packer.isDigit 42 = false := rfl
    have none : ([42] ++ rest).takeWhile packer.isDigit = [] :=
      takeWhile_cons_of_neg (by simp [notDigit])
    rw [Packer.amountText, none, if_neg (by simp)]
    exact if_pos rfl
  | digits nonempty range =>
    have all : (amount ++ rest).takeWhile packer.isDigit = amount := by
      rw [takeWhile_append_of_pos fun ch member => isDigit_of_range (range ch member),
        noDigits, append_nil]
    rw [Packer.amountText, all, if_pos nonempty]

/-- A unit as a template has it. -/
def WellFormed (unit : Nat × List Nat) : Prop := isLetter unit.1 = true ∧ AmountText unit.2

section

variable (wellFormed : ∀ unit ∈ units, WellFormed unit)

include wellFormed

theorem head_of_units :
    ∀ ch ∈ (units.flatMap fun unit => unit.1 :: unit.2).head?, isLetter ch = true := by
  cases units with
  | nil => simp
  | cons unit units =>
    intro ch member
    obtain rfl : unit.1 = ch := Option.some.inj member
    exact (wellFormed unit mem_cons_self).1

theorem comb_flatMap : ∀ rounds, units.length ≤ rounds →
      packer.comb rounds (units.flatMap fun unit => unit.1 :: unit.2) = units := by
  induction units with
  | nil =>
    intro rounds _
    cases rounds with
    | zero => rfl
    | succ rounds => rfl
  | cons unit units ih =>
    intro rounds enough
    rw [forall_mem_cons] at wellFormed
    obtain ⟨rounds, rfl⟩ := Nat.exists_eq_add_of_lt ((Nat.succ_pos _).trans_le enough)
    rw [length_cons, zero_add] at enough
    have amount := @amountText_append fmt N packer _ _ wellFormed.1.2 (head_of_units wellFormed.2)
    rw [zero_add, flatMap_cons, cons_append, Packer.comb, if_pos wellFormed.1.1,
      amount, drop_left, ih wellFormed.2 rounds (by omega)]

theorem units_flatMap : packer.units (units.flatMap fun unit => unit.1 :: unit.2) = units := by
  refine comb_flatMap wellFormed _ ?_
  induction units with
  | nil => exact Nat.zero_le _
  | cons unit units ih =>
    have later := ih (forall_mem_cons.mp wellFormed).2
    simp only [flatMap_cons, length_append, length_cons]
    omega

end

theorem Amount.range : ∀ ch ∈ amount.digits.text, 48 ≤ ch ∧ ch ≤ 57 := by
  intro ch member
  rcases mem_digitRun amount.digits.run ch member with underscore | ⟨digit, isDigit⟩
  · exact absurd underscore (amount.plain ch member)
  · exact code_of_isDigit_ten isDigit

theorem Amount.text_ne_nil : amount.digits.text ≠ [] := by
  obtain ⟨ch, digit, rest, text, _⟩ := amount.digits.run.exists_cons
  rw [text]
  exact cons_ne_nil _ _

theorem Packing.wellFormed : ∀ unit ∈ packing.units, WellFormed unit := by
  intro unit member
  rcases mem_append.mp member with inEntries | inFinal
  · obtain ⟨entry, _, rfl⟩ := mem_map.mp inEntries
    cases entry with
    | number directive _ _ =>
      refine ⟨?_, .nothing⟩
      cases directive <;> rfl
    | text amount _ _ _ => exact ⟨rfl, .digits amount.text_ne_nil amount.range⟩
  cases final : packing.final with
  | nothing => simp [final, Final.units] at inFinal
  | star string ascii =>
    rw [final] at inFinal
    rw [mem_singleton.mp inFinal]
    exact ⟨rfl, .star⟩
  | hex string lowerHex =>
    rw [final] at inFinal
    rw [mem_singleton.mp inFinal]
    exact ⟨rfl, .nothing⟩

theorem Packing.units_template : packer.units packing.template = packing.units :=
  units_flatMap packing.wellFormed

end

variable {string : List Nat}

section

variable {value : Nat} (directive : NumberDirective) (amount : Amount) (entry : Entry)
  (entries : List Entry) (units : List (Nat × List Nat)) (items : List Field) (rest : List Nat)

/-- A byte as `pack` pushes it. -/
def pushed (bytes : List Nat) : List Int := bytes.map fun byte : Nat => (byte : Int)

theorem shiftRight_mod (value bits : Nat) :
    shiftRight value bits % 0x100 = ((value / 2 ^ bits % 0x100 : Nat) : Int) := by
  have power : ((2 : Int) ^ bits) = ((2 ^ bits : Nat) : Int) := by norm_cast
  rw [shiftRight, power, ← Int.ofNat_tdiv]
  norm_cast

theorem mod_byte (value : Nat) :
    (value : Int) % 0x100 = ((value / 2 ^ 0x00 % 0x100 : Nat) : Int) := by
  rw [pow_zero, Nat.div_one]
  norm_cast

theorem packUnit_number (value : Nat) (items : List Field) :
    packer.packUnit directive.code [] (.int value :: items) =
      .ok (pushed (directive.weights.map fun weight => value / 2 ^ weight % 0x100), items) := by
  have ran : packer.packUnit directive.code [] (.int value :: items) =
      .ok (directive.weights.map fun weight =>
        (if weight = 0x00 then (value : Int) else shiftRight value weight) % 0x100, items) := by
    cases directive <;> rfl
  have sameByte : ∀ weight : Nat,
      (if weight = 0x00 then (value : Int) else shiftRight value weight) % 0x100 =
        ((value / 2 ^ weight % 0x100 : Nat) : Int) := by
    intro weight
    split
    · next zero => rw [zero, mod_byte]
    · exact shiftRight_mod value weight
  rw [ran, pushed, map_map]
  simp only [sameByte, Function.comp_def]

theorem weighted_eq {weights bytes : List Nat} (same : bytes.length = weights.length)
    (rest : List Nat) : weighted weights (bytes ++ rest) =
      .ok ([.int (List.zipWith (fun byte weight : Nat => byte * 2 ^ weight) bytes weights).sum],
        rest) := by
  rw [weighted, shiftBytes, if_pos (by simp [same]), ok_bind, ← same, take_left, drop_left]

/-- A byte with its weight, in a number. -/
def share (value weight : Nat) : Nat := value / 2 ^ weight % 0x100 * 2 ^ weight

theorem sum_two (inRange : value < 256 ^ 2) : share value 0x00 + share value 0x08 = value := by
  norm_num [share] at inRange ⊢
  omega

theorem sum_four (inRange : value < 256 ^ 4) :
    share value 0x00 + (share value 0x08 + (share value 0x10 + share value 0x18)) = value := by
  have powers : (2 : Nat) ^ 0x08 = 256 ∧ (2 : Nat) ^ 0x10 = 65536 ∧ (2 : Nat) ^ 0x18 = 16777216 ∧
      (256 : Nat) ^ 4 = 4294967296 := by
    norm_num
  have sum : ∀ value < 4294967296, value % 256 + (value / 256 % 256 * 256 +
      (value / 65536 % 256 * 65536 + value / 16777216 % 256 * 16777216)) = value := by
    omega
  rw [powers.2.2.2] at inRange
  rw [share, share, share, share, powers.1, powers.2.1, powers.2.2.1, pow_zero, Nat.div_one,
    Nat.mul_one]
  exact sum value inRange

theorem sum_zipWith (value : Nat) (weights : List Nat) :
    (List.zipWith (fun byte weight : Nat => byte * 2 ^ weight)
      (weights.map fun weight => value / 2 ^ weight % 0x100) weights).sum =
        (weights.map (share value)).sum := by
  induction weights with
  | nil => rfl
  | cons weight weights ih =>
    rw [map_cons, zipWith_cons_cons, sum_cons, ih, map_cons, sum_cons]
    rfl

theorem sum_map_weights {shares : Nat → Nat} (one : directive.width = 1 → shares 0x00 = value)
    (two : directive.width = 2 → shares 0x00 + shares 0x08 = value) (four : directive.width = 4 →
      shares 0x00 + (shares 0x08 + (shares 0x10 + shares 0x18)) = value) :
    (directive.weights.map shares).sum = value := by
  cases directive with
  | C => exact one rfl
  | S | v => exact two rfl
  | L | V => exact four rfl
  | n =>
    have sum := two rfl
    simp only [NumberDirective.weights, map_cons, map_nil, sum_cons, sum_nil]
    omega
  | N =>
    have sum := four rfl
    simp only [NumberDirective.weights, map_cons, map_nil, sum_cons, sum_nil]
    omega

theorem sum_weights (inRange : value < 256 ^ directive.width) :
    (List.zipWith (fun byte weight : Nat => byte * 2 ^ weight)
      (directive.weights.map fun weight => value / 2 ^ weight % 0x100) directive.weights).sum =
        value := by
  rw [sum_zipWith]
  refine sum_map_weights directive ?_ ?_ ?_
  · intro width
    rw [width, pow_one] at inRange
    rw [share, pow_zero, Nat.div_one, Nat.mul_one, Nat.mod_eq_of_lt inRange]
  · intro width
    rw [width] at inRange
    exact sum_two inRange
  · intro width
    rw [width] at inRange
    exact sum_four inRange

theorem unpackUnit_number (inRange : value < 256 ^ directive.width) (rest : List Nat) :
    packer.unpackUnit directive.code []
      ((directive.weights.map fun weight => value / 2 ^ weight % 0x100) ++ rest) =
        .ok ([.int value], rest) := by
  have ran : ∀ bytes : List Nat,
      packer.unpackUnit directive.code [] bytes = weighted directive.weights bytes := by
    cases directive <;> exact fun _ => rfl
  rw [ran, weighted_eq (length_map _), sum_weights directive inRange]

theorem mapAll_ok {A B : Type} {f : A → Except PackError B} {g : A → B} {list : List A}
    (each : ∀ a ∈ list, f a = .ok (g a)) : mapAll f list = .ok (list.map g) := by
  induction list with
  | nil => rfl
  | cons a list ih =>
    rw [forall_mem_cons] at each
    rw [mapAll, each.1, ok_bind, ih each.2]
    rfl

theorem mapAll_asciiCode (ascii : ∀ ch ∈ string, ch < 128) :
    mapAll asciiCode string = .ok (pushed string) :=
  mapAll_ok fun ch member => if_neg (Nat.le_of_lt_succ (ascii ch member)).not_gt

theorem Amount.intOf : packer.intOf amount.digits.text = .ok (amount.digits.value : Int) := by
  let written : Written :=
    { sign := none
      specifier := .plain
      numeral := ⟨some amount.digits, none, .inl rfl⟩
      bounded := by decide }
  have text : written.text = amount.digits.text := by
    simp [written, Written.text, Written.body, signText, Specifier.opening, Specifier.closing,
      Fractional.text]
    rfl
  have number : (written.number : RealNumber N) = .int amount.digits.value :=
    number_of_int rfl rfl false rfl
  have read := numeric_written packer.reader written (.inl rfl)
  rw [text, number] at read
  rw [Packer.intOf, read]

theorem Amount.ne_star : amount.digits.text ≠ [42] := by
  intro same
  have range := amount.range 42 (by rw [same]; exact mem_cons_self)
  omega

theorem packUnit_text (ascii : ∀ ch ∈ string, ch < 128)
    (exact : string.length = amount.digits.value) (items : List Field) :
    packer.packUnit 65 amount.digits.text (.str string :: items) = .ok (pushed string, items) := by
  show (mapAll asciiCode string >>= _) = _
  rw [mapAll_asciiCode ascii, ok_bind, if_pos amount.ne_star, amount.intOf, ok_bind]
  have none : ((amount.digits.value : Int) - (textOf (.str string)).length).toNat = 0 := by
    rw [textOf, exact, sub_self]
    rfl
  rw [none, replicate_zero, append_nil]

theorem shiftBytes_append (bytes rest : List Nat) :
    shiftBytes bytes.length (bytes ++ rest) = .ok (bytes, rest) := by
  rw [shiftBytes, if_pos (by simp), take_left, drop_left]

theorem unpackUnit_text (exact : string.length = amount.digits.value) (rest : List Nat) :
    packer.unpackUnit 65 amount.digits.text (string ++ rest) = .ok ([collected string], rest) := by
  show (if amount.digits.text = [42] then _ else (packer.intOf amount.digits.text >>= _)) = _
  rw [if_neg amount.ne_star, amount.intOf, ok_bind, ← exact]
  dsimp only
  rw [Int.toNat_natCast, shiftBytes_append]
  rfl

theorem Entry.packUnit : packer.packUnit entry.unit.1 entry.unit.2 (entry.field :: items) =
      .ok (pushed entry.bytes, items) := by
  cases entry with
  | number directive value _ => exact packUnit_number directive value items
  | text amount string ascii exact => exact packUnit_text amount ascii exact items

theorem Entry.unpackUnit : packer.unpackUnit entry.unit.1 entry.unit.2 (entry.bytes ++ rest) =
      .ok ([entry.returned], rest) := by
  cases entry with
  | number directive value inRange => exact unpackUnit_number directive inRange rest
  | text amount string _ exact => exact unpackUnit_text amount exact rest

theorem packUnits_entries :
    packer.packUnits (entries.map Entry.unit ++ units) (entries.map Entry.field ++ items) =
      (packer.packUnits units items).map fun later =>
        pushed (entries.flatMap Entry.bytes) ++ later := by
  induction entries with
  | nil =>
    rw [map_nil, map_nil, nil_append, nil_append]
    cases packer.packUnits units items with
    | ok later => rfl
    | error failure => rfl
  | cons entry entries ih =>
    rw [map_cons, map_cons, cons_append, cons_append, Packer.packUnits, entry.packUnit, ok_bind]
    dsimp only
    rw [ih]
    cases packer.packUnits units items with
    | ok later => simp [ok_bind, Except.map, pushed]
    | error failure => rfl

theorem unpackUnits_entries :
    packer.unpackUnits (entries.map Entry.unit ++ units) (entries.flatMap Entry.bytes ++ rest) =
      (packer.unpackUnits units rest).map fun back =>
        (entries.map Entry.returned ++ back.1, back.2) := by
  induction entries with
  | nil =>
    rw [map_nil, flatMap_nil, nil_append, nil_append]
    cases packer.unpackUnits units rest with
    | ok later => rfl
    | error failure => rfl
  | cons entry entries ih =>
    rw [map_cons, cons_append, flatMap_cons, append_assoc,
      Packer.unpackUnits, entry.unpackUnit, ok_bind]
    dsimp only
    rw [ih]
    cases packer.unpackUnits units rest with
    | ok later => simp [ok_bind, Except.map]
    | error failure => rfl

end

section

/-- The value of a hexadecimal digit. -/
def hexValue (ch : Nat) : Nat := if ch ≤ 57 then ch - 48 else ch - 87

theorem hexValue_spec : ∀ ch < 103, LowerHex ch →
    hexValue ch < 16 ∧ hexDigit (hexValue ch) = ch ∧ digitOf ch = some (hexValue ch) := by
  unfold LowerHex
  decide

theorem LowerHex.spec {ch : Nat} (lowerHex : LowerHex ch) :
    hexValue ch < 16 ∧ hexDigit (hexValue ch) = ch ∧ IsDigit 16 ch (hexValue ch) := by
  have below : ch < 103 := by
    unfold LowerHex at lowerHex
    omega
  obtain ⟨small, back, digit⟩ := hexValue_spec ch below lowerHex
  exact ⟨small, back, digit, small⟩

theorem radix16_digits {a b : Nat} (first : LowerHex a) (second : LowerHex b) :
    packer.radix16 [a, b] = .ok ((hexValue a * 16 + hexValue b : Nat) : Int) := by
  have sixteen := @digitsOf_value 10 (by decide) (by decide) 16
  let written : Written :=
    { sign := none
      specifier := .angle (digitsOf (by decide) (by decide) 16)
      numeral :=
        ⟨some ⟨[a, b], [hexValue a, hexValue b], by
          rw [Specifier.radix, sixteen]
          exact .next first.spec.2.2 (.last second.spec.2.2)⟩, none, .inl rfl⟩
      bounded := by
        rw [Specifier.radix, sixteen]
        decide }
  have notPrefix : b ≠ 111 ∧ b ≠ 120 := by
    unfold LowerHex at second
    omega
  have text : codes ":" ++ intStr 16 ++ codes "<" ++ [a, b] ++ codes ">" = written.text := by
    simp [written, Written.text, Written.body, signText, Specifier.opening, Specifier.closing,
      Fractional.text, digitsOf, codes, intStr, baseI]
  have number : (written.number : RealNumber N) = .int (hexValue a * 16 + hexValue b : Nat) := by
    refine number_of_int rfl rfl false ?_
    show _ = ((digitsValue (digitsOf (by decide) (by decide) 16).value
      [hexValue a, hexValue b] : Nat) : ℚ)
    rw [sixteen]
    simp [digitsValue, Nat.ofDigits]
    ring
  have read := numeric_written packer.reader written (.inr (Option.some_ne_none _))
  rw [number, ← text] at read
  rw [Packer.radix16, Reader.unbase, if_neg (by simp [codes, substr, notPrefix]), read]

/-- The numbers that pairs of digits stand for. -/
def octets : List Nat → List Nat
  | a :: b :: rest => (hexValue a * 16 + hexValue b) :: octets rest
  | _ => []

theorem mapAll_radix16 : ∀ {string : List Nat}, (∀ ch ∈ string, LowerHex ch) →
    mapAll packer.radix16 (pairs string) = .ok (pushed (octets string))
  | [], _ => rfl
  | [_], _ => rfl
  | a :: b :: rest, lowerHex => by
    rw [forall_mem_cons, forall_mem_cons] at lowerHex
    rw [pairs, mapAll, radix16_digits lowerHex.1 lowerHex.2.1, ok_bind,
      mapAll_radix16 lowerHex.2.2, ok_bind]
    rfl

theorem flatMap_octets : ∀ {string : List Nat}, (∀ ch ∈ string, LowerHex ch) →
    ((octets string).flatMap fun byte => [hexDigit (byte / 2 ^ 4), hexDigit (byte % 16)]) =
      string.take (string.length / 2 * 2)
  | [], _ => rfl
  | [_], _ => by simp [octets]
  | a :: b :: rest, lowerHex => by
    rw [forall_mem_cons, forall_mem_cons] at lowerHex
    obtain ⟨smallA, backA, _⟩ := lowerHex.1.spec
    obtain ⟨smallB, backB, _⟩ := lowerHex.2.1.spec
    have high : (hexValue a * 16 + hexValue b) / 2 ^ 4 = hexValue a := by omega
    have low : (hexValue a * 16 + hexValue b) % 16 = hexValue b := by omega
    have length : (a :: b :: rest).length / 2 * 2 = rest.length / 2 * 2 + 1 + 1 := by
      simp only [length_cons]
      omega
    rw [octets, flatMap_cons, flatMap_octets lowerHex.2.2, high, low, backA, backB, length,
      take_succ_cons, take_succ_cons]
    rfl

/-- A string of hexadecimal digits comes back. -/
def HexReturns (packer : Packer fmt N) (string : List Nat) : Prop :=
  string ≠ [] ∧ ∃ odd, packer.hexOdd string = .ok odd ∧ (string.length % 2 = 1 → odd = true)

/-- What is packed for a string of hexadecimal digits. -/
def hexText (odd : Bool) (string : List Nat) : List Nat := if odd then string ++ [48] else string

theorem lowerHex_hexText (lowerHex : ∀ ch ∈ string, LowerHex ch) (odd : Bool) :
    ∀ ch ∈ hexText odd string, LowerHex ch := by
  cases odd with
  | false => exact lowerHex
  | true =>
    intro ch member
    rcases mem_append.mp member with inString | isZero
    · exact lowerHex ch inString
    · rw [mem_singleton.mp isZero]
      exact .inl (by decide)

theorem packUnit_hex (lowerHex : ∀ ch ∈ string, LowerHex ch) {odd : Bool}
    (isOdd : packer.hexOdd string = .ok odd) (items : List Field) :
    packer.packUnit 72 [] (.str string :: items) =
      .ok (pushed (octets (hexText odd string)), items) := by
  show (packer.hexOdd string >>= _) = _
  rw [isOdd, ok_bind]
  exact congrArg (fun ran => ran >>= _) (mapAll_radix16 (lowerHex_hexText lowerHex odd))

theorem packUnit_hex_error {failure : PackError}
    (failed : packer.hexOdd string = .error failure) (items : List Field) :
    packer.packUnit 72 [] (.str string :: items) = .error failure := by
  show (packer.hexOdd string >>= _) = _
  rw [failed]
  rfl

theorem take_hexText (odd : Bool) (string : List Nat) :
    (hexText odd string).take ((hexText odd string).length / 2 * 2) = padded string ↔
      (string.length % 2 = 1 → odd = true) := by
  by_cases oddLength : string.length % 2 = 1
  · rw [padded, if_pos oddLength]
    cases odd with
    | true =>
      have all : (hexText true string).length / 2 * 2 = (hexText true string).length := by
        simp only [hexText, if_true, length_append, length_singleton]
        omega
      rw [all, take_length]
      exact iff_of_true rfl fun _ => rfl
    | false =>
      refine iff_of_false (fun same => ?_) (fun odd => by cases odd oddLength)
      have lengths := congrArg length same
      simp [hexText] at lengths
      omega
  rw [padded, if_neg oddLength]
  refine iff_of_true ?_ fun odd => absurd odd oddLength
  cases odd with
  | true =>
    have front : (hexText true string).length / 2 * 2 = string.length := by
      simp only [hexText, if_true, length_append, length_singleton]
      omega
    rw [front]
    exact take_left
  | false =>
    have all : (hexText false string).length / 2 * 2 = string.length := by
      show string.length / 2 * 2 = string.length
      omega
    rw [all]
    exact take_length

end

/-- An entry comes back: a text has a character. -/
def Entry.Returns : Entry → Prop
  | number _ _ _ => True
  | text _ string _ _ => string ≠ []

def Final.Returns (packer : Packer fmt N) : Final → Prop
  | nothing => True
  | star string _ => string ≠ []
  | hex string _ => HexReturns packer string

def Packing.Returns (packer : Packer fmt N) (packing : Packing) : Prop :=
  (∀ entry ∈ packing.entries, entry.Returns) ∧ packing.final.Returns packer

section

variable (entry : Entry) (unit : Nat × List Nat)

theorem collected_eq_str {text expected : List Nat} :
    collected text = .str expected ↔ text ≠ [] ∧ text = expected := by
  rw [collected]
  split
  · next none => simp [none]
  · next some => simp [some]

theorem Entry.returned_eq_field : entry.returned = entry.field ↔ entry.Returns := by
  cases entry with
  | number _ _ _ => exact iff_of_true rfl trivial
  | text _ string _ _ =>
    show collected string = .str string ↔ string ≠ []
    rw [collected_eq_str]
    simp

theorem Entry.bytes_lt : ∀ byte ∈ entry.bytes, byte < 256 := by
  cases entry with
  | number directive value _ =>
    intro byte member
    obtain ⟨weight, _, rfl⟩ := mem_map.mp member
    exact Nat.mod_lt _ (by decide)
  | text _ string ascii _ => exact fun byte member => (ascii byte member).trans (by decide)

theorem octets_lt : ∀ {string : List Nat}, (∀ ch ∈ string, LowerHex ch) →
    ∀ byte ∈ octets string, byte < 256
  | [], _ => nofun
  | [_], _ => nofun
  | a :: b :: rest, lowerHex => by
    rw [forall_mem_cons, forall_mem_cons] at lowerHex
    have smallA := lowerHex.1.spec.1
    have smallB := lowerHex.2.1.spec.1
    rw [octets, forall_mem_cons]
    exact ⟨by omega, octets_lt lowerHex.2.2⟩

theorem map_toNat_pushed {bytes : List Nat} (small : ∀ byte ∈ bytes, byte < 256) :
    (pushed bytes).map (fun byte => (byte % 0x100).toNat) = bytes := by
  rw [pushed, map_map]
  refine (map_congr_left fun byte member => ?_).trans (map_id _)
  have bound := small byte member
  show ((byte : Int) % 0x100).toNat = byte
  omega

theorem packUnits_singleton (items : List Field) :
    packer.packUnits [unit] items = (packer.packUnit unit.1 unit.2 items).map Prod.fst := by
  rw [Packer.packUnits]
  cases packer.packUnit unit.1 unit.2 items with
  | ok pushed => simp [ok_bind, Packer.packUnits, Except.map]
  | error failure => rfl

theorem unpackUnits_singleton (bytes : List Nat) :
    packer.unpackUnits [unit] bytes = packer.unpackUnit unit.1 unit.2 bytes := by
  rw [Packer.unpackUnits]
  cases packer.unpackUnit unit.1 unit.2 bytes with
  | ok back => simp [ok_bind, Packer.unpackUnits]
  | error failure => rfl

theorem Final.runs (final : Final) :
    (∃ failure, packer.packUnits final.units final.items = .error failure ∧
      ¬ final.Returns packer) ∨
    ∃ bytes fields, packer.packUnits final.units final.items = .ok (pushed bytes) ∧
      (∀ byte ∈ bytes, byte < 256) ∧ packer.unpackUnits final.units bytes = .ok (fields, []) ∧
        (fields = final.expected ↔ final.Returns packer) := by
  cases final with
  | nothing => exact .inr ⟨[], [], rfl, by simp, rfl, iff_of_true rfl trivial⟩
  | star string ascii =>
    have packed : packer.packUnit 65 [42] [.str string] = .ok (pushed string, []) := by
      show (mapAll asciiCode string >>= _) = _
      rw [mapAll_asciiCode ascii]
      rfl
    have unpacked : packer.unpackUnit 65 [42] string = .ok ([collected string], []) := by
      have all := shiftBytes_append string []
      rw [append_nil] at all
      show (shiftBytes string.length string >>= _) = _
      rw [all]
      rfl
    refine .inr ⟨string, [collected string], ?_, fun byte member => ?_, ?_, ?_⟩
    · rw [units, items, packUnits_singleton, packed]
      rfl
    · exact lt_trans (ascii byte member) (by decide)
    · rw [units, unpackUnits_singleton, unpacked]
    · show [collected string] = [.str string] ↔ string ≠ []
      rw [singleton_inj, collected_eq_str]
      simp
  | hex string lowerHex =>
    cases isOdd : packer.hexOdd string with
    | error failure =>
      refine .inl ⟨failure, ?_, ?_⟩
      · rw [units, items, packUnits_singleton, packUnit_hex_error isOdd]
        rfl
      rintro ⟨_, odd, isOdd', _⟩
      rw [isOdd] at isOdd'
      cases isOdd'
    | ok odd =>
      have digits := lowerHex_hexText lowerHex odd
      refine .inr ⟨octets (hexText odd string), [collected ((hexText odd string).take
        ((hexText odd string).length / 2 * 2))], ?_, octets_lt digits, ?_, ?_⟩
      · rw [units, items, packUnits_singleton, packUnit_hex lowerHex isOdd]
        rfl
      · rw [units, unpackUnits_singleton, ← flatMap_octets digits]
        rfl
      show [collected _] = [.str (padded string)] ↔ HexReturns packer string
      rw [singleton_inj, collected_eq_str]
      constructor
      · rintro ⟨nonempty, same⟩
        refine ⟨?_, odd, isOdd, (take_hexText odd string).mp same⟩
        rintro rfl
        exact nonempty same
      rintro ⟨nonempty, odd', isOdd', atOddLength⟩
      obtain rfl : odd = odd' := Except.ok.inj (isOdd.symm.trans isOdd')
      have same := (take_hexText odd string).mpr atOddLength
      refine ⟨?_, same⟩
      rw [same, padded]
      split
      · exact append_ne_nil_of_right_ne_nil _ (cons_ne_nil _ _)
      · exact nonempty

/-- A packing comes back exactly if its texts have a character and the hexadecimal digits at its
end pass for a number that is odd when their length is. -/
theorem roundTrips_iff_returns (packing : Packing) :
    RoundTrips packer packing ↔ packing.Returns packer := by
  have inEntries : ∀ byte ∈ packing.entries.flatMap Entry.bytes, byte < 256 := by
    intro byte member
    obtain ⟨entry, _, inEntry⟩ := mem_flatMap.mp member
    exact entry.bytes_lt byte inEntry
  rw [RoundTrips, Packer.pack, packing.units_template, Packing.units, Packing.items,
    packUnits_entries]
  rcases @Final.runs fmt N packer packing.final with
    ⟨failure, failed, notReturns⟩ | ⟨bytes, fields, packed, inFinal, unpacked, same⟩
  · rw [failed]
    refine iff_of_false ?_ fun returns => notReturns returns.2
    rintro ⟨bytes, impossible, _⟩
    cases impossible
  have kept : (pushed (packing.entries.flatMap Entry.bytes) ++ pushed bytes).map
      (fun byte => (byte % 0x100).toNat) = packing.entries.flatMap Entry.bytes ++ bytes := by
    rw [map_append, map_toNat_pushed inEntries, map_toNat_pushed inFinal]
  have back : packer.unpack (packing.entries.flatMap Entry.bytes ++ bytes) packing.template =
      .ok (packing.entries.map Entry.returned ++ fields, []) := by
    rw [Packer.unpack, packing.units_template, Packing.units, unpackUnits_entries, unpacked]
    rfl
  have packs : (do
      let bytes ← (packer.packUnits packing.final.units packing.final.items).map fun later =>
        pushed (packing.entries.flatMap Entry.bytes) ++ later
      Except.ok (bytes.map fun byte => (byte % 0x100).toNat)) =
        Except.ok (packing.entries.flatMap Entry.bytes ++ bytes) := by
    rw [packed, ← kept]
    rfl
  rw [packs]
  constructor
  · rintro ⟨bytes', isBytes, unpacked'⟩
    cases isBytes
    have fieldsEq := (Prod.mk.inj (Except.ok.inj (back.symm.trans unpacked'))).1
    obtain ⟨entriesEq, finalEq⟩ := append_inj fieldsEq (by simp)
    refine ⟨fun entry member => ?_, same.mp finalEq⟩
    exact entry.returned_eq_field.mp (map_inj_left.mp entriesEq entry member)
  rintro ⟨entries, final⟩
  refine ⟨_, rfl, back.trans ?_⟩
  have entriesEq : packing.entries.map Entry.returned = packing.entries.map Entry.field :=
    map_congr_left fun entry member => entry.returned_eq_field.mpr (entries entry member)
  rw [entriesEq, same.mpr final, Packing.expected]

end

/-- A packer for texts without floating point numbers. -/
def exactPacker : Packer .mp64Bit Unit where
  reader := exactReader
  modTwo := fun _ => false
  uIsdigit := fun _ => false

/-- `pack('H', 'ab')` throws, `pack('H', '2')` gives no byte, and `unpack` gives an undefined
value for the empty text. -/
theorem hex_ab_not_returned :
    ¬ RoundTrips exactPacker ⟨[], .hex (codes "ab") (by unfold LowerHex; decide)⟩ ∧
      ¬ RoundTrips exactPacker ⟨[], .hex (codes "2") (by unfold LowerHex; decide)⟩ ∧
      ¬ RoundTrips exactPacker ⟨[], .star [] (by simp)⟩ := by
  refine ⟨?_, ?_, ?_⟩
  · rintro ⟨bytes, packed, _⟩
    have failed : exactPacker.pack (codes "H") [.str (codes "ab")] = .error (.text (.strNumeric
      "base-10 number must begin with valid digits or '.'" 0)) := rfl
    cases failed.symm.trans packed
  · rintro ⟨bytes, packed, unpacked⟩
    have nothing : exactPacker.pack (codes "H") [.str (codes "2")] = .ok [] := rfl
    obtain rfl : [] = bytes := Except.ok.inj (nothing.symm.trans packed)
    have undefined : exactPacker.unpack [] (codes "H") = .ok ([.any], []) := rfl
    cases undefined.symm.trans unpacked
  rintro ⟨bytes, packed, unpacked⟩
  have nothing : exactPacker.pack (codes "A*") [.str []] = .ok [] := rfl
  obtain rfl : [] = bytes := Except.ok.inj (nothing.symm.trans packed)
  have undefined : exactPacker.unpack [] (codes "A*") = .ok ([.any], []) := rfl
  cases undefined.symm.trans unpacked

end RakudoStar.Buffers
