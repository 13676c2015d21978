import RakudoStar.Numeric.Exactness
import RakudoStar.Numeric.Text

/-!
# Numerals

How the parser goes over a run of digits, and over a numeral with a fraction, up to a
character that cannot belong to it.
-/

namespace RakudoStar.Numeric

open Bigint RakudoStar.Except List Option Int

variable {fmt : DigitFormat} {N : Type} {radix : Nat} {str front digits stop : List Nat} {pos : Nat}
  {ch : Nat} {rest : List Nat} (neg : Bool) (int : Int)

/-- A rest that cannot go on with a numeral. -/
def Stops (stop : List Nat) : Prop :=
  ∀ ch ∈ stop.head?, digitOf ch = none ∧ ch ≠ '_'.toNat

theorem Stops.nil : Stops [] := nofun

theorem Stops.cons (none : digitOf ch = none) (other : ch ≠ '_'.toNat)
    (rest : List Nat) : Stops (ch :: rest) := by
  rintro _ ⟨⟩
  exact ⟨none, other⟩

theorem scanDigits_of_stops (stops : Stops stop) : scanDigits radix stop = ([], 0) := by
  cases stop with
  | nil => rfl
  | cons ch rest =>
    refine scanDigits_cons_of_not_isDigit fun digit isDigit => ?_
    have none := (stops ch rfl).1
    rw [isDigit.1] at none
    cases none

theorem scanDigits_append (run : DigitRun radix front digits) (stops : Stops stop) :
    scanDigits radix (front ++ stop) = (digits, front.length) := by
  induction run with
  | last isDigit =>
    cases stop with
    | nil => exact scanDigits_singleton isDigit
    | cons ch rest =>
      rw [singleton_append, scanDigits_next isDigit (stops ch rfl).2, scanDigits_of_stops stops]
      rfl
  | @next ch digit text digits isDigit run ih =>
    obtain ⟨next, value, rest, rfl, nextDigit⟩ := run.exists_cons
    rw [cons_append, cons_append, scanDigits_next isDigit nextDigit.ne_underscore,
      ← cons_append, ih]
    rfl
  | @underscore ch digit text digits isDigit run ih =>
    rw [cons_append, cons_append, scanDigits_underscore isDigit, ih, if_neg run.digits_ne_nil]
    rfl

theorem textFrom_natCast (str : List Nat) (pos : Nat) : textFrom str pos = str.drop pos :=
  if_pos (natCast_nonneg pos)

theorem reading_of_unsigned {flags : Nat} (unsigned : readsSign flags = false) :
    reading radix str pos flags =
      { negative := false
        digits := (scanDigits radix (str.drop pos)).1
        pos := if (scanDigits radix (str.drop pos)).1 = [] then -1
          else pos + (scanDigits radix (str.drop pos)).2 } := by
  have noSign : ∀ text : List Nat, signOf false text = none := by
    intro text
    cases text with
    | nil => rfl
    | cons ch rest => simp [signOf]
  have behind : ∀ text : List Nat, behindSign false text = text := by
    intro text
    rw [behindSign, noSign]
    rfl
  simp only [reading, unsigned, textFrom_natCast, noSign, behind]
  simp

theorem radixI_eq {flags : Nat} (bounded : radix ≤ 36) (unsigned : readsSign flags = false) :
    radixI fmt radix str pos flags =
      .ok (signedValue radix flags false (scanDigits radix (str.drop pos)).1,
        (radix ^ (keptDigits flags (scanDigits radix (str.drop pos)).1).length : Nat),
        if (scanDigits radix (str.drop pos)).1 = [] then -1
          else pos + (scanDigits radix (str.drop pos)).2) := by
  have first : -(str.length : Int) ≤ pos := by omega
  obtain ⟨result, ran, reads⟩ := @nqpBigintRadix_reads fmt radix str pos flags bounded first
  rw [reading_of_unsigned unsigned] at reads
  rw [radixI, ran]
  dsimp only
  rw [reads.value, reads.base, reads.pos]

theorem radixI_run {flags : Nat} (bounded : radix ≤ 36) (unsigned : readsSign flags = false)
    (run : DigitRun radix front digits) (stops : Stops stop)
    (split : str.drop pos = front ++ stop) :
    radixI fmt radix str pos flags = .ok (signedValue radix flags false digits,
      (radix ^ (keptDigits flags digits).length : Nat), pos + front.length) := by
  rw [radixI_eq bounded unsigned, split, scanDigits_append run stops, if_neg run.digits_ne_nil]

theorem radixI_none {flags : Nat} (bounded : radix ≤ 36) (unsigned : readsSign flags = false)
    (stops : Stops (str.drop pos)) :
    ∃ value base, radixI fmt radix str pos flags = .ok (value, base, -1) := by
  rw [radixI_eq bounded unsigned, scanDigits_of_stops stops]
  exact ⟨_, _, rfl⟩

/-- A run of digits in a radix. -/
structure Digits (radix : Nat) where
  text : List Nat
  digits : List Nat
  run : DigitRun radix text digits

/-- An integer part and a fraction, of which one may be missing. -/
structure Fractional (radix : Nat) where
  int : Option (Digits radix)
  frac : Option (Digits radix)
  nonempty : int.isSome ∨ frac.isSome

def Fractional.text (numeral : Fractional radix) : List Nat :=
  numeral.int.elim [] Digits.text ++ numeral.frac.elim [] fun frac => 46 :: frac.text

def Digits.value (digits : Digits radix) : Nat := digitsValue radix digits.digits

/-- The number that a numeral stands for. -/
def Fractional.value (numeral : Fractional radix) : ℚ :=
  numeral.int.elim 0 (fun int => (int.value : ℚ)) +
    numeral.frac.elim 0 fun frac => (frac.value : ℚ) / (radix : ℚ) ^ frac.digits.length

/-- The sign in front of a number. -/
def signed (neg : Bool) (q : ℚ) : ℚ := if neg then -q else q

/-- The object for a numeral: an `Int` if there is no radix point. -/
def Fractional.number (numeral : Fractional radix) (neg : Bool) : RealNumber N :=
  match numeral.frac with
  | none => .int (signed neg numeral.value).num
  | some _ => .rat (.ofRat (signed neg numeral.value))

/-- A rest that cannot go on with a numeral with a fraction. -/
def Ends (stop : List Nat) : Prop :=
  Stops stop ∧ ∀ ch ∈ stop.head?, ch ≠ 46 ∧ ch ≠ 42

theorem ends_nil : Ends [] := ⟨.nil, nofun⟩

theorem currentChar_eq (split : str.drop pos = rest) :
    currentChar str str.length pos = .ok (rest.headD 0) := by
  subst split
  rw [currentChar]
  split
  · next inside =>
      obtain ⟨ch, ran, first⟩ := @textFrom_eq_cons str pos (by omega) (by omega)
      rw [textFrom_natCast] at first
      rw [ord, ran, first]
      rfl
  · next outside =>
      rw [drop_eq_nil_of_le (not_lt.mp outside)]
      rfl

/-- The flag that negates a number. -/
def signFlag (neg : Bool) : Nat := if neg then 1 else 0

theorem readsSign_signFlag : readsSign (signFlag neg) = false := by
  cases neg <;> rfl

theorem signedValue_signFlag (digits : List Nat) :
    (signedValue radix (signFlag neg) false digits : ℚ) =
      signed neg (digitsValue radix digits) := by
  cases neg <;> simp [signedValue, signFlag, signed, keptDigits]

theorem drop_append (split : str.drop pos = front ++ rest) :
    str.drop (pos + front.length) = rest := by
  rw [← drop_drop, split, drop_left]

theorem parseInt_run (bounded : radix ≤ 36) (run : DigitRun radix front digits)
    (stops : Stops stop) (split : str.drop pos = front ++ stop) (neg : Bool) {ch : Nat}
    (notPoint : ch ≠ 46) : parseInt fmt str str.length neg radix ch pos =
      .ok (signedValue radix (signFlag neg) false digits, pos + front.length, stop.headD 0) := by
  have parse := @radixI_run fmt radix str front digits stop pos _ bounded (readsSign_signFlag neg)
    run stops split
  rw [signFlag] at parse
  rw [parseInt, if_pos notPoint, toNat_natCast, parse, ok_bind]
  dsimp only
  rw [if_neg (by omega)]
  have behind : ((pos : Int) + front.length).toNat = pos + front.length := by omega
  rw [behind, currentChar_eq (drop_append split)]
  rfl

theorem parseInt_point : parseInt fmt str str.length neg int 46 pos = .ok (0, pos, 46) := rfl

theorem parseInt_fails (bounded : radix ≤ 36) (stops : Stops (str.drop pos)) (neg : Bool)
    (notPoint : ch ≠ 46) : parseInt fmt str str.length neg radix ch pos =
      parseFail s!"base-{(radix : Int)} number must begin with valid digits or '.'" pos := by
  obtain ⟨value, base, parse⟩ := @radixI_none fmt radix str pos _ bounded
    (readsSign_signFlag neg) stops
  rw [signFlag] at parse
  rw [parseInt, if_pos notPoint, toNat_natCast, parse, ok_bind]
  exact if_pos rfl

theorem parseFrac_none (notPoint : ch ≠ 46) :
    parseFrac fmt str str.length neg int ch pos = .ok (0, 0, pos, ch) := if_neg notPoint

theorem readsSign_fracFlag : readsSign (signFlag neg + 4) = false := by
  cases neg <;> rfl

theorem signedValue_fracFlag (digits : List Nat) :
    (signedValue radix (signFlag neg + 4) false digits : ℚ) =
      signed neg (digitsValue radix (keptDigits 4 digits)) := by
  cases neg <;> simp [signedValue, signFlag, signed, keptDigits]

theorem keptDigits_fracFlag (digits : List Nat) :
    keptDigits (signFlag neg + 4) digits = keptDigits 4 digits := by
  cases neg <;> rfl

theorem parseFrac_run (bounded : radix ≤ 36) (run : DigitRun radix front digits)
    (stops : Stops stop) (split : str.drop pos = 46 :: front ++ stop) (neg : Bool) :
    parseFrac fmt str str.length neg radix 46 pos =
      .ok (signedValue radix (signFlag neg + 4) false digits,
        (radix ^ (keptDigits 4 digits).length : Nat), pos + 1 + front.length, stop.headD 0) := by
  have behindPoint : str.drop (pos + 1) = front ++ stop := by
    rw [← drop_drop, split]
    rfl
  have parse := @radixI_run fmt radix str front digits stop (pos + 1) _ bounded
    (readsSign_fracFlag neg) run stops behindPoint
  rw [keptDigits_fracFlag, signFlag] at parse
  rw [parseFrac, if_pos rfl, toNat_natCast]
  dsimp only
  rw [parse, ok_bind]
  dsimp only
  rw [if_neg (by omega)]
  have behind : ((↑(pos + 1) : Int) + front.length).toNat = pos + 1 + front.length := by omega
  rw [behind, currentChar_eq (drop_append behindPoint)]
  rfl

theorem Digits.radix_pos (digits : Digits radix) : 0 < radix := by
  obtain ⟨ch, digit, rest, _, isDigit⟩ := digits.run.exists_cons
  exact Nat.lt_of_le_of_lt (Nat.zero_le digit) isDigit.2

theorem div_keptDigits (positive : 0 < radix) (digits : List Nat) :
    (digitsValue radix (keptDigits 4 digits) : ℚ) / (radix ^ (keptDigits 4 digits).length : Nat) =
      digitsValue radix digits / radix ^ digits.length := by
  have same := digitsValue_keptDigits radix 4 digits
  have nonzero : (radix : ℚ) ≠ 0 := Nat.cast_ne_zero.mpr positive.ne'
  rw [Nat.cast_pow, div_eq_div_iff (pow_ne_zero _ nonzero) (pow_ne_zero _ nonzero)]
  exact_mod_cast same

theorem realOf_frac (positive : 0 < radix) (neg : Bool) {int : Int} {whole : ℚ}
    (intEq : (int : ℚ) = signed neg whole) (digits : List Nat) :
    (realOf int (signedValue radix (signFlag neg + 4) false digits)
        (radix ^ (keptDigits 4 digits).length : Nat) : Except TextError (RealNumber N)) =
      .ok (.rat (.ofRat (signed neg (whole + digitsValue radix digits /
        radix ^ digits.length)))) := by
  have nonzero : ((radix ^ (keptDigits 4 digits).length : Nat) : Int) ≠ 0 :=
    natCast_ne_zero.mpr (Nat.pow_pos positive).ne'
  have nonzero' : ((radix ^ (keptDigits 4 digits).length : Nat) : ℚ) ≠ 0 := by
    exact_mod_cast nonzero
  rw [realOf, if_neg nonzero, reduce_eq nonzero]
  rw [← div_keptDigits positive, cast_add, cast_mul, intEq, signedValue_fracFlag, cast_natCast]
  cases neg
  · simp only [signed, Bool.false_eq_true, if_false]
    field_simp
  simp only [signed, if_true]
  field_simp
  ring_nf

theorem Ends.headD (ends : Ends stop) :
    stop.headD 0 ≠ 46 ∧ stop.headD 0 ≠ 42 ∧ stop.headD 0 ≠ 69 ∧ stop.headD 0 ≠ 101 := by
  cases stop with
  | nil => decide
  | cons ch rest =>
    have none := (ends.1 ch rfl).1
    have others := ends.2 ch rfl
    refine ⟨others.1, others.2, ?_, ?_⟩
    · rintro rfl
      cases none
    · rintro rfl
      cases none

theorem stops_point (rest : List Nat) : Stops (46 :: rest) := .cons (by decide) (by decide) rest

theorem parseIntFracExp_ends {reader : Reader fmt N} {neg : Bool}
    {simple : Nat → Except TextError (RealNumber N × Nat)} {pos' pos'' ch' : Nat}
    {int frac base : Int} {result : RealNumber N} (ends : Ends stop)
    (isInt : parseInt fmt str str.length neg radix ch pos = .ok (int, pos', ch'))
    (isFrac : parseFrac fmt str str.length neg radix ch' pos' =
      .ok (frac, base, pos'', stop.headD 0)) (isReal : realOf int frac base = .ok result) :
    parseIntFracExp str str.length neg radix reader simple ch pos = .ok (result, pos'') := by
  obtain ⟨_, notStar, notE, note⟩ := ends.headD
  rw [parseIntFracExp, isInt, ok_bind]
  dsimp only
  rw [isFrac, ok_bind]
  rw [if_neg (by rintro (isE | ise); exacts [notE isE, note ise]),
    if_neg (fun star => notStar star.1), ok_bind]
  rw [mul_one, mul_one, isReal]
  rfl

theorem number_of_int {int : Digits radix} {numeral : Fractional radix}
    (isInt : numeral.int = some int) (noFrac : numeral.frac = none) (neg : Bool) {value : Int}
    (valueEq : (value : ℚ) = signed neg int.value) :
    (numeral.number neg : RealNumber N) = .int value := by
  have whole : numeral.value = int.value := by
    rw [Fractional.value, isInt, noFrac]
    exact add_zero _
  rw [Fractional.number, noFrac]
  rw [whole, ← valueEq, Rat.num_intCast]

theorem parseIntFracExp_eq (bounded : radix ≤ 36) (numeral : Fractional radix) (ends : Ends stop)
    (split : str.drop pos = numeral.text ++ stop) (neg : Bool) (reader : Reader fmt N)
    (simple : Nat → Except TextError (RealNumber N × Nat))
    (current : ch = 46 ↔ numeral.int = none) :
    parseIntFracExp str str.length neg radix reader simple ch pos =
      .ok (numeral.number neg, pos + numeral.text.length) := by
  obtain ⟨notPoint, _⟩ := ends.headD
  rcases numeral with ⟨int, frac, nonempty⟩
  cases int with
  | none =>
    cases frac with
    | none => simp at nonempty
    | some frac =>
      obtain rfl := current.mpr rfl
      have isFrac := @parseFrac_run fmt radix str frac.text frac.digits stop pos bounded
        frac.run ends.1 split neg
      have zero : ((0 : Int) : ℚ) = signed neg 0 := by cases neg <;> simp [signed]
      rw [parseIntFracExp_ends ends (parseInt_point neg radix) isFrac
        (realOf_frac frac.radix_pos neg zero frac.digits)]
      simp [Fractional.number, Fractional.value, Fractional.text, Digits.value]
      omega
  | some int =>
    have notPoint' : ch ≠ 46 := fun point => by cases current.mp point
    cases frac with
    | none =>
      simp only [Fractional.text, elim_some, elim_none, append_nil] at split
      have isInt := @parseInt_run fmt radix str int.text int.digits stop pos bounded int.run
        ends.1 split neg ch notPoint'
      have isReal : (realOf (signedValue radix (signFlag neg) false int.digits) 0 0 :
          Except TextError (RealNumber N)) =
            .ok (.int (signedValue radix (signFlag neg) false int.digits)) := if_pos rfl
      rw [parseIntFracExp_ends ends isInt (parseFrac_none neg radix notPoint) isReal,
        number_of_int rfl rfl neg (signedValue_signFlag neg int.digits)]
      simp [Fractional.text]
    | some frac =>
      simp only [Fractional.text, elim_some, append_assoc, cons_append] at split
      have isInt := @parseInt_run fmt radix str int.text int.digits
        (46 :: (frac.text ++ stop)) pos bounded int.run (stops_point _) split neg ch notPoint'
      have isFrac := @parseFrac_run fmt radix str frac.text frac.digits stop
        (pos + int.text.length) bounded frac.run ends.1 (drop_append split) neg
      rw [parseIntFracExp_ends ends isInt isFrac (realOf_frac frac.radix_pos neg
        (signedValue_signFlag neg int.digits) frac.digits)]
      simp [Fractional.number, Fractional.value, Fractional.text, Digits.value]
      omega

theorem parseIntFracExp_fails (bounded : radix ≤ 36) (stops : Stops (str.drop pos)) (neg : Bool)
    (reader : Reader fmt N) (simple : Nat → Except TextError (RealNumber N × Nat))
    (stale : ch ≠ 46) : parseIntFracExp str str.length neg radix reader simple ch pos =
      parseFail s!"base-{(radix : Int)} number must begin with valid digits or '.'" pos := by
  rw [parseIntFracExp, parseInt_fails bounded stops neg stale]
  rfl

end RakudoStar.Numeric
