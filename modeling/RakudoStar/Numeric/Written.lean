import RakudoStar.Numeric.Numerals

/-!
# Numerals with a sign and a radix

The forms in which a number may be written, and what `parse-simple-number` makes of them.
-/

namespace RakudoStar.Numeric

open Bigint RakudoStar.Except List

/-- The letters behind a `0`. -/
inductive PrefixLetter where
  | b
  | o
  | d
  | x
  deriving DecidableEq, Repr

def PrefixLetter.radix : PrefixLetter → Nat
  | b => 2
  | o => 8
  | d => 10
  | x => 16

def PrefixLetter.code : PrefixLetter → Nat
  | b => 98
  | o => 111
  | d => 100
  | x => 120

/-- What says in which radix a numeral is written. -/
inductive Specifier where
  | plain
  | lettered (letter : PrefixLetter) (underscore : Bool)
  | angle (radix : Digits 10)
  | quotes (radix : Digits 10)

def Specifier.radix : Specifier → Nat
  | plain => 10
  | lettered letter _ => letter.radix
  | angle radix => radix.value
  | quotes radix => radix.value

def Specifier.opening : Specifier → List Nat
  | plain => []
  | lettered letter underscore => 48 :: letter.code :: if underscore then [95] else []
  | angle radix => 58 :: (radix.text ++ [60])
  | quotes radix => 58 :: (radix.text ++ [171])

def Specifier.closing : Specifier → List Nat
  | plain => []
  | lettered _ _ => []
  | angle _ => [62]
  | quotes _ => [187]

def signText : Option Bool → List Nat
  | none => []
  | some false => [43]
  | some true => [45]

/-- A number as it is written: a sign, a radix and the digits. -/
structure Written where
  sign : Option Bool
  specifier : Specifier
  numeral : Fractional specifier.radix
  bounded : specifier.radix ≤ 36

namespace Written

def neg (written : Written) : Bool := written.sign.getD false

/-- The numeral in its radix, behind the sign. -/
def body (written : Written) : List Nat :=
  written.specifier.opening ++ (written.numeral.text ++ written.specifier.closing)

def text (written : Written) : List Nat := signText written.sign ++ written.body

/-- The rational value, with the sign applied to both parts. -/
def value (written : Written) : ℚ := signed written.neg written.numeral.value

def number {N : Type} (written : Written) : RealNumber N := written.numeral.number written.neg

end Written

variable {fmt : DigitFormat} {N : Type} {radix : Nat} {str front digits stop : List Nat} {pos : Nat}
  {ch : Nat} (numeral : Fractional radix) (written : Written) (reader : Reader fmt N)

theorem ord_eq {rest : List Nat} (split : str.drop pos = ch :: rest) : ord str pos = .ok ch := by
  have inside : pos < str.length := by
    by_contra outside
    rw [drop_eq_nil_of_le (not_lt.mp outside)] at split
    cases split
  obtain ⟨ch', ran, first⟩ := @textFrom_eq_cons str pos (by omega) (by omega)
  rw [textFrom_natCast, split] at first
  rw [ord, ran, (List.cons.inj first).1]

theorem substr_ne_of_head {len : Nat} {rest other : List Nat} (split : str.drop pos = ch :: rest)
    (differs : other.head? ≠ some ch) (len_pos : 0 < len) : substr str pos len ≠ other := by
  rintro rfl
  obtain ⟨len, rfl⟩ := Nat.exists_eq_succ_of_ne_zero len_pos.ne'
  rw [substr, split] at differs
  exact differs rfl

theorem code_of_isDigit_ten {digit : Nat} (isDigit : IsDigit 10 ch digit) : 48 ≤ ch ∧ ch ≤ 57 := by
  rcases isDigit with ⟨value, small⟩
  rw [digitOf] at value
  simp only [Char.reduceToNat] at value
  split at value
  · assumption
  split at value
  · cases value
    omega
  split at value
  · cases value
    omega
  · cases value

/-- A character that is not a digit above nine. -/
def Decimal (ch : Nat) : Prop := ∀ digit, digitOf ch = some digit → digit < 10

theorem index_of_decimal (decimal : Decimal ch) (rest : List Nat) :
    index (codes "  b     o d     x") (ch :: rest) < 2 := by
  have table : codes "  b     o d     x" =
      [32, 32, 98, 32, 32, 32, 32, 32, 111, 32, 100, 32, 32, 32, 32, 32, 120] := by decide
  rw [index]
  split
  · next member =>
      rw [table] at member ⊢
      have cases : ch = 32 ∨ ch = 98 ∨ ch = 111 ∨ ch = 100 ∨ ch = 120 := by
        simp at member
        omega
      rcases cases with rfl | rfl | rfl | rfl | rfl
      · decide
      · exact absurd (decimal 11 (by decide)) (by decide)
      · exact absurd (decimal 24 (by decide)) (by decide)
      · exact absurd (decimal 13 (by decide)) (by decide)
      · exact absurd (decimal 33 (by decide)) (by decide)
  · decide

theorem decimal_of_none (none : digitOf ch = none) : Decimal ch := by
  intro digit value
  rw [none] at value
  cases value

theorem mem_digitRun (run : DigitRun radix front digits) :
    ∀ ch ∈ front, ch = 95 ∨ ∃ digit, IsDigit radix ch digit := by
  induction run with
  | last isDigit =>
    intro ch member
    rw [mem_singleton.mp member]
    exact .inr ⟨_, isDigit⟩
  | next isDigit _ ih =>
    intro ch member
    rcases mem_cons.mp member with rfl | later
    · exact .inr ⟨_, isDigit⟩
    · exact ih ch later
  | underscore isDigit _ ih =>
    intro ch member
    rcases mem_cons.mp member with rfl | later
    · exact .inr ⟨_, isDigit⟩
    rcases mem_cons.mp later with rfl | later
    · exact .inl rfl
    · exact ih ch later

theorem mem_fractional :
    ∀ ch ∈ numeral.text, ch = 95 ∨ ch = 46 ∨ ∃ digit, IsDigit radix ch digit := by
  rcases numeral with ⟨int, frac, nonempty⟩
  have inInt : ∀ ch ∈ int.elim [] Digits.text, ch = 95 ∨ ∃ digit, IsDigit radix ch digit := by
    cases int with
    | none => simp
    | some int => exact mem_digitRun int.run
  have inFrac : ∀ ch ∈ frac.elim [] (fun frac => 46 :: frac.text),
      ch = 46 ∨ ch = 95 ∨ ∃ digit, IsDigit radix ch digit := by
    cases frac with
    | none => simp
    | some frac =>
      intro ch member
      exact (mem_cons.mp member).imp_right (mem_digitRun frac.run ch)
  intro ch member
  rcases mem_append.mp member with front | back
  · exact (inInt ch front).imp_right .inr
  rcases inFrac ch back with point | underscore | digit
  · exact .inr (.inl point)
  · exact .inl underscore
  · exact .inr (.inr digit)

theorem decimal_of_mem (numeral : Fractional 10) (member : ch ∈ numeral.text) : Decimal ch := by
  rcases mem_fractional numeral ch member with rfl | rfl | ⟨digit, isDigit⟩
  · exact decimal_of_none (by decide)
  · exact decimal_of_none (by decide)
  intro other value
  rw [isDigit.1] at value
  cases value
  exact isDigit.2

theorem fractional_head : ∃ ch rest, numeral.text = ch :: rest ∧ (ch = 46 ↔ numeral.int = none) ∧
      (ch = 46 ∨ ∃ digit, IsDigit radix ch digit) := by
  rcases numeral with ⟨int, frac, nonempty⟩
  cases int with
  | none =>
    cases frac with
    | none => simp at nonempty
    | some frac => exact ⟨46, frac.text, rfl, by simp, .inl rfl⟩
  | some int =>
    obtain ⟨ch, digit, rest, eq, isDigit⟩ := int.run.exists_cons
    refine ⟨ch, _, by rw [Fractional.text, Option.elim_some, eq, cons_append], ?_,
      .inr ⟨digit, isDigit⟩⟩
    refine iff_of_false ?_ (Option.some_ne_none int)
    rintro rfl
    have value := isDigit.1
    cases value

section

variable {reader : Reader fmt N} {sign : Option Bool} {fuel ch : Nat} {rest : List Nat}

theorem parseSign_eq (split : str.drop pos = signText sign ++ ch :: rest)
    (noSign : ¬ (ch = 45 ∨ ch = 43)) : parseSign str str.length pos =
      .ok (sign.getD false, ch, pos + (signText sign).length) := by
  cases sign with
  | none =>
    rw [parseSign, ord_eq split, ok_bind, if_neg noSign]
    rfl
  | some neg =>
    obtain ⟨code, text, isSign, isNeg⟩ : ∃ code, signText (some neg) = [code] ∧
        (code = 45 ∨ code = 43) ∧ decide (code = 45) = neg := by
      cases neg
      · exact ⟨43, rfl, .inr rfl, rfl⟩
      · exact ⟨45, rfl, .inl rfl, rfl⟩
    rw [text] at split ⊢
    have current : currentChar str str.length (pos + 1) = .ok ch :=
      currentChar_eq (drop_append split)
    rw [parseSign, ord_eq split, ok_bind, if_pos isSign, current, ok_bind, isNeg]
    rfl

theorem parseSimpleNumber_signed (split : str.drop pos = signText sign ++ ch :: rest)
    (noSign : ¬ (ch = 45 ∨ ch = 43)) (notN : ch ≠ 78) {pos' : Nat}
    (behind : pos' = pos + (signText sign).length) :
    parseSimpleNumber str str.length reader (fuel + 1) pos = if ch = 58 then
        parseRadixed str str.length (sign.getD false) reader
          (parseSimpleNumber str str.length reader fuel) (pos' + 1)
      else if ch = 48 ∧ 2 ≤ prefixRadix str pos' then do
        let next ← currentChar str str.length (pos' + 2)
        parseIntFracExp str str.length (sign.getD false) (prefixRadix str pos') reader
          (parseSimpleNumber str str.length reader fuel) ch
          (if pos' + 2 < str.length ∧ next = 95 then pos' + 2 + 1 else pos' + 2)
      else if substr str pos' 3 = codes "Inf" then
        .ok (.num (reader.infinity (sign.getD false)), pos' + 3) else
        parseIntFracExp str str.length (sign.getD false) 10 reader
          (parseSimpleNumber str str.length reader fuel) ch pos' := by
  subst behind
  have notNaN : substr str pos 3 ≠ codes "NaN" := by
    cases sign with
    | none => exact substr_ne_of_head split (by simpa [codes] using notN.symm) (by decide)
    | some neg =>
      cases neg
      all_goals exact substr_ne_of_head split (by decide) (by decide)
  rw [parseSimpleNumber, if_neg notNaN, parseSign_eq split noSign]
  rfl

theorem prefixRadix_of_decimal (decimal : ∀ next ∈ rest.head?, Decimal next)
    (split : str.drop pos = ch :: rest) : ¬ 2 ≤ prefixRadix str pos := by
  have behind : str.drop (pos + 1) = rest := by
    rw [← drop_drop, split]
    rfl
  rw [prefixRadix, substr, behind]
  cases rest with
  | nil => decide
  | cons next rest => exact not_le.mpr (index_of_decimal (decimal next rfl) _)

theorem parseSimpleNumber_plain (numeral : Fractional 10) (ends : Ends stop)
    (split : str.drop pos = signText sign ++ (numeral.text ++ stop)) :
    parseSimpleNumber str str.length reader (fuel + 1) pos = .ok (numeral.number (sign.getD false),
        pos + (signText sign).length + numeral.text.length) := by
  obtain ⟨ch, rest, text, current, isFirst⟩ := fractional_head numeral
  have range : ch = 46 ∨ 48 ≤ ch ∧ ch ≤ 57 := isFirst.imp_right fun ⟨_, isDigit⟩ =>
    code_of_isDigit_ten isDigit
  have behind : str.drop (pos + (signText sign).length) = numeral.text ++ stop := drop_append split
  have decimal : ∀ next ∈ (rest ++ stop).head?, Decimal next := by
    intro next member
    cases rest with
    | nil => exact decimal_of_none (ends.1 next member).1
    | cons other rest =>
      obtain rfl : other = next := Option.some.inj member
      exact decimal_of_mem numeral (by simp [text])
  have parse := parseIntFracExp_eq (by decide) numeral ends behind (sign.getD false) reader
    (parseSimpleNumber str str.length reader fuel) current
  rw [text, cons_append] at split behind
  rw [parseSimpleNumber_signed split (by omega) (by omega) rfl, if_neg (by omega),
    if_neg (fun both => prefixRadix_of_decimal decimal behind both.2),
    if_neg (substr_ne_of_head behind (by simp [codes]; omega) (by decide))]
  exact parse

theorem PrefixLetter.index_eq (letter : PrefixLetter) :
    index (codes "  b     o d     x") [letter.code] = letter.radix := by
  cases letter <;> decide

theorem parseSimpleNumber_lettered {letter : PrefixLetter} {underscore : Bool}
    (numeral : Fractional letter.radix) (split : str.drop pos = signText sign ++
      48 :: letter.code :: ((if underscore then [95] else []) ++ (numeral.text ++ stop))) :
    parseSimpleNumber str str.length reader (fuel + 1) pos =
      parseIntFracExp str str.length (sign.getD false) letter.radix reader
        (parseSimpleNumber str str.length reader fuel) 48
        (pos + (signText sign).length + (2 + if underscore then 1 else 0)) ∧
      str.drop (pos + (signText sign).length + (2 + if underscore then 1 else 0)) =
        numeral.text ++ stop := by
  have behind := drop_append split
  have after : str.drop (pos + (signText sign).length + 2) =
      (if underscore then [95] else []) ++ (numeral.text ++ stop) := by
    rw [← drop_drop, behind]
    rfl
  have specified : prefixRadix str (pos + (signText sign).length) = letter.radix := by
    rw [prefixRadix, substr, ← drop_drop, behind]
    exact letter.index_eq
  have isPrefix : (48 : Nat) = 48 ∧ 2 ≤ prefixRadix str (pos + (signText sign).length) := by
    rw [specified]
    cases letter <;> decide
  rw [parseSimpleNumber_signed split (by decide) (by decide) rfl, if_neg (by decide),
    if_pos isPrefix, specified]
  obtain ⟨ch, rest, text, _, isFirst⟩ := fractional_head numeral
  cases underscore with
  | false =>
    have notUnderscore : ch ≠ 95 := by
      rintro rfl
      rcases isFirst with point | ⟨digit, isDigit⟩
      · cases point
      · exact isDigit.ne_underscore rfl
    refine ⟨?_, after⟩
    rw [currentChar_eq after, ok_bind, text]
    exact congrArg _ (if_neg fun both => notUnderscore both.2)
  | true =>
    have inside : pos + (signText sign).length + 2 < str.length := by
      by_contra outside
      rw [drop_eq_nil_of_le (not_lt.mp outside)] at after
      cases after
    refine ⟨?_, ?_⟩
    · rw [currentChar_eq after, ok_bind]
      exact congrArg _ (if_pos ⟨inside, rfl⟩)
    have further : str.drop (pos + (signText sign).length + 2 + 1) = numeral.text ++ stop := by
      rw [← drop_drop, after]
      rfl
    exact further

theorem getInt_of_small {value : Nat} (small : value ≤ 36) : getInt value = value := by
  rw [getInt]
  omega

/-- The characters around the digits of a number with a radix in front. -/
inductive Brackets : Nat → Nat → Prop
  | angle : Brackets 60 62
  | quotes : Brackets 171 187

theorem parseRadixed_eq {specifier : Digits 10} (small : specifier.value ≤ 36)
    {opening closing : Nat}
    (brackets : Brackets opening closing)
    (split : str.drop pos = specifier.text ++ opening :: rest) (neg : Bool)
    (simple : Nat → Except TextError (RealNumber N × Nat)) :
    ∃ reason, parseRadixed str str.length neg reader simple pos =
      parseClosed str str.length neg reader simple specifier.value opening
        (pos + specifier.text.length + 1) closing reason := by
  have stops : Stops (opening :: rest) := by
    cases brackets
    · exact .cons (by decide) (by decide) rest
    · exact .cons (by decide) (by decide) rest
  have parse := @radixI_run fmt 10 str specifier.text specifier.digits (opening :: rest) pos 0
    (by decide) (by decide) specifier.run stops split
  have value : getInt (signedValue 10 0 false specifier.digits) = specifier.value :=
    getInt_of_small small
  have behind : ((pos : Int) + specifier.text.length).toNat =
      pos + specifier.text.length := by omega
  rw [parseRadixed, parse, ok_bind]
  dsimp only
  rw [if_neg (by omega), behind, currentChar_eq (drop_append split), ok_bind, value]
  cases brackets
  · exact ⟨_, if_pos rfl⟩
  · refine ⟨_, (if_neg (by simp)).trans (if_pos rfl)⟩

theorem ends_of_brackets {opening closing : Nat} (brackets : Brackets opening closing)
    (rest : List Nat) : Ends (closing :: rest) := by
  cases brackets
  all_goals exact ⟨.cons (by decide) (by decide) rest, by simp⟩

theorem parseClosed_eq {opening closing : Nat} (brackets : Brackets opening closing)
    (bounded : radix ≤ 36) (numeral : Fractional radix)
    (split : str.drop pos = numeral.text ++ closing :: stop) (hasInt : numeral.int ≠ none)
    (neg : Bool) (simple : Nat → Except TextError (RealNumber N × Nat)) (reason : String) :
    parseClosed str str.length neg reader simple radix opening pos closing reason =
      .ok (numeral.number neg, pos + numeral.text.length + 1) := by
  have notPoint : opening ≠ 46 := by cases brackets <;> decide
  have parse := parseIntFracExp_eq bounded numeral (ends_of_brackets brackets stop) split neg
    reader simple (iff_of_false notPoint hasInt)
  have behind := drop_append split
  have inside : pos + numeral.text.length < str.length := by
    by_contra outside
    rw [drop_eq_nil_of_le (not_lt.mp outside)] at behind
    cases behind
  rw [parseClosed, parse, ok_bind]
  dsimp only
  rw [currentChar_eq behind, ok_bind]
  exact if_pos ⟨inside, rfl⟩

theorem parseClosed_fails {opening closing : Nat} (brackets : Brackets opening closing)
    (bounded : radix ≤ 36) (stops : Stops (str.drop pos)) (neg : Bool)
    (simple : Nat → Except TextError (RealNumber N × Nat)) (reason : String) :
    ∃ failure, parseClosed str str.length neg reader simple radix opening pos closing reason =
      .error failure := by
  have notPoint : opening ≠ 46 := by cases brackets <;> decide
  rw [parseClosed, parseIntFracExp_fails bounded stops neg reader simple notPoint]
  exact ⟨_, rfl⟩

theorem parseSimpleNumber_bracketed {specifier : Digits 10} (small : specifier.value ≤ 36)
    {opening closing : Nat} (brackets : Brackets opening closing)
    (split : str.drop pos = signText sign ++ 58 :: (specifier.text ++ opening :: rest)) :
    ∃ simple pos' reason, pos' = pos + (signText sign).length + (specifier.text.length + 2) ∧
      parseSimpleNumber str str.length reader (fuel + 1) pos =
        parseClosed str str.length (sign.getD false) reader simple specifier.value opening pos'
          closing reason ∧ str.drop pos' = rest := by
  have behind := drop_append split
  have after : str.drop (pos + (signText sign).length + 1) = specifier.text ++ opening :: rest := by
    rw [← drop_drop, behind]
    rfl
  obtain ⟨reason, parse⟩ := @parseRadixed_eq fmt N str _ reader rest specifier small opening
    closing brackets after (sign.getD false) (parseSimpleNumber str str.length reader fuel)
  refine ⟨parseSimpleNumber str str.length reader fuel, _, reason, rfl, ?_, ?_⟩
  · rw [parseSimpleNumber_signed split (by decide) (by decide) rfl, if_pos rfl, parse]
    congr 1
    omega
  have further : str.drop (pos + (signText sign).length + 1 + specifier.text.length + 1) =
      rest := by
    rw [← drop_drop, drop_append after]
    rfl
  rw [← further]
  congr 1
  omega

end

/-- The forms that the parser reads. -/
def Written.Readable (written : Written) : Prop :=
  written.specifier = .plain ∨ written.numeral.int ≠ none

theorem Written.text_split (stop : List Nat) :
    written.text ++ stop = signText written.sign ++ (written.specifier.opening ++
      (written.numeral.text ++ (written.specifier.closing ++ stop))) := by
  rw [text, body]
  simp only [append_assoc]

theorem Written.text_length : written.text.length =
    (signText written.sign).length + (written.specifier.opening.length +
      (written.numeral.text.length + written.specifier.closing.length)) := by
  simp only [text, body, length_append]

/-- The parser reads a numeral up to what does not belong to it. -/
theorem parseSimpleNumber_written (written : Written)
    (readable : written.Readable) (ends : Ends stop) (split : str.drop pos = written.text ++ stop)
    (fuel : Nat) : parseSimpleNumber str str.length reader (fuel + 1) pos =
      .ok (written.number, pos + written.text.length) := by
  rw [written.text_split stop] at split
  rw [written.text_length]
  rcases written with ⟨sign, specifier, numeral, bounded⟩
  cases specifier with
  | plain =>
    refine (@parseSimpleNumber_plain fmt N str stop pos reader sign fuel numeral ends
      split).trans ?_
    rw [add_assoc]
    simp [Specifier.opening, Specifier.closing]
    exact ⟨rfl, rfl⟩
  | lettered letter underscore =>
    have hasInt : numeral.int ≠ none := readable.resolve_left (by simp)
    simp only [Specifier.opening, Specifier.closing, cons_append, nil_append] at split
    obtain ⟨parse, after⟩ := @parseSimpleNumber_lettered fmt N str stop pos reader sign fuel
      letter underscore numeral split
    refine (parse.trans (parseIntFracExp_eq bounded numeral ends after (sign.getD false) reader _
      (iff_of_false (by decide) hasInt))).trans ?_
    cases underscore
    all_goals
      simp [Specifier.opening, Specifier.closing]
      exact ⟨rfl, by omega⟩
  | angle radix | quotes radix =>
    have hasInt : numeral.int ≠ none := readable.resolve_left (by simp)
    simp only [Specifier.opening, Specifier.closing, cons_append, append_assoc, nil_append] at split
    obtain ⟨simple, pos', reason, behind, parse, after⟩ :=
      @parseSimpleNumber_bracketed fmt N str pos reader sign fuel _ radix bounded _ _
        (by constructor) split
    refine (parse.trans (@parseClosed_eq fmt N radix.value str stop pos' reader _ _
      (by constructor) bounded numeral after hasInt (sign.getD false) simple reason)).trans ?_
    simp [Specifier.opening, Specifier.closing]
    refine ⟨rfl, ?_⟩
    dsimp only [Specifier.radix]
    omega

theorem Fractional.text_of_no_int {numeral : Fractional radix} (noInt : numeral.int = none) :
    ∃ rest, numeral.text = 46 :: rest := by
  obtain ⟨ch, rest, text, current, _⟩ := fractional_head numeral
  obtain rfl := current.mpr noInt
  exact ⟨rest, text⟩

/-- The parser fails where it compares a stale character with the point. -/
theorem parseSimpleNumber_fails (written : Written)
    (unreadable : ¬ written.Readable) (split : str.drop pos = written.text ++ stop) (fuel : Nat) :
    ∃ failure, parseSimpleNumber str str.length reader (fuel + 1) pos = .error failure := by
  rw [written.text_split stop] at split
  rcases written with ⟨sign, specifier, numeral, bounded⟩
  obtain ⟨notPlain, noInt⟩ : specifier ≠ .plain ∧ numeral.int = none := by
    rw [Written.Readable, not_or, not_not] at unreadable
    exact unreadable
  obtain ⟨rest, text⟩ := Fractional.text_of_no_int noInt
  cases specifier with
  | plain => exact absurd rfl notPlain
  | lettered letter underscore =>
    simp only [Specifier.opening, Specifier.closing, cons_append, nil_append] at split
    obtain ⟨parse, after⟩ := @parseSimpleNumber_lettered fmt N str stop pos reader sign fuel
      letter underscore numeral split
    have point := after.trans (congrArg (· ++ stop) text)
    have stops : Stops (46 :: rest ++ stop) := stops_point (rest ++ stop)
    rw [← point] at stops
    exact ⟨_, parse.trans (parseIntFracExp_fails bounded stops (sign.getD false) reader _
      (by decide))⟩
  | angle radix | quotes radix =>
    simp only [Specifier.opening, Specifier.closing, cons_append, append_assoc, nil_append] at split
    obtain ⟨simple, pos', reason, _, parse, after⟩ :=
      @parseSimpleNumber_bracketed fmt N str pos reader sign fuel _ radix bounded _ _
        (by constructor) split
    have stops : Stops (str.drop pos') := by
      rw [after, text]
      exact stops_point _
    rw [parse]
    exact @parseClosed_fails fmt N radix.value str pos' reader _ _ (by constructor) bounded stops
      (sign.getD false) simple reason

end RakudoStar.Numeric
