import RakudoStar.Strings.IntegerText

/-!
# The text of an integer

The digits are stored from the end of the buffer, which is as long as the longest numeral.
-/

namespace RakudoStar.Strings

open Foundation List Nat

variable {base p : Nat} {tc : List UInt8} (order : ByteOrder) (seed : UInt64)

theorem digitsText_eq (two : 2 ≤ base) (n : Nat) : digitsText base n =
      (if n / base = 0 then [] else digitsText base (n / base)) ++ [digitCharacter (n % base)] := by
  rcases Nat.eq_zero_or_pos n with rfl | positive
  · rw [Nat.zero_div, if_pos rfl, zero_mod]
    rfl
  rw [digitsText, if_neg positive.ne', digits_def' two positive,
    reverse_cons, map_append, map_singleton]
  by_cases last : n / base = 0
  · rw [if_pos last, last, digits_zero]
    rfl
  · rw [if_neg last, digitsText, if_neg last]

theorem digitsText_ne_nil (two : 2 ≤ base) (n : Nat) : digitsText base n ≠ [] := by
  rw [digitsText_eq two]
  exact append_ne_nil_of_right_ne_nil _ (cons_ne_nil _ _)

theorem length_digitsText {n : Nat} (two : 2 ≤ base) (bound : n < 2 ^ 64) :
    (digitsText base n).length ≤ 64 := by
  rw [digitsText]
  split
  · decide
  rw [length_map, length_reverse]
  apply (digits_length_le_iff two n).mpr
  exact lt_of_lt_of_le bound (Nat.pow_le_pow_left two 64)

theorem digitCharacter_lt {cur : Nat} (small : cur < 36) : digitCharacter cur < 0x80 := by
  unfold digitCharacter
  split <;> omega

theorem digitsText_lt (two : 2 ≤ base) (most : base ≤ 36) (n : Nat) :
    ∀ c ∈ digitsText base n, c < 0x80 := by
  intro c member
  rw [digitsText] at member
  split at member
  · rw [mem_singleton.mp member]
    decide
  rcases mem_map.mp member with ⟨digit, within, rfl⟩
  have small := digits_lt_base two (mem_reverse.mp within)
  exact digitCharacter_lt (small.trans_le most)

theorem storeBefore_spec (room : p < tc.length) (c : Nat) :
    ∃ next, storeBefore tc (p + 1) c = .ok (next, p) ∧ next.length = tc.length ∧
      next.drop p = UInt8.ofNat c :: tc.drop (p + 1) := by
  refine ⟨tc.set p (UInt8.ofNat c), ?_, length_set, ?_⟩
  · rw [storeBefore, if_pos room]
  · have inside : p < (tc.set p (UInt8.ofNat c)).length := by rwa [length_set]
    rw [drop_eq_getElem_cons inside, getElem_set_self, drop_set_of_lt (lt_succ_self p)]

theorem storeDigits_spec (two : 2 ≤ base)
    (inside : p ≤ tc.length) {num : Nat} (room : (digitsText base num).length ≤ p) :
    ∃ next q, storeDigits base p num tc = .ok (next, q) ∧
      q + (digitsText base num).length = p ∧ next.length = tc.length ∧
      next.drop q = (digitsText base num).map UInt8.ofNat ++ tc.drop p := by
  induction p generalizing tc num with
  | zero =>
    exact absurd (length_eq_zero_iff.mp (le_zero.mp room)) (digitsText_ne_nil two num)
  | succ p ih =>
    rcases storeBefore_spec inside (digitCharacter (num % base)) with
      ⟨stored, store, length, dropped⟩
    have digits := digitsText_eq two num
    rw [storeDigits, store, Except.ok_bind]
    dsimp only
    by_cases last : num / base = 0
    · rw [if_pos last, nil_append] at digits
      refine ⟨stored, p, if_neg (not_not.mpr last), ?_, length, ?_⟩
      · rw [digits]
        rfl
      · rw [digits, dropped]
        rfl
    rw [if_neg last] at digits
    rw [digits, length_append, length_singleton] at room
    rcases @ih stored (by omega) (num / base) (le_of_succ_le_succ room)
      with ⟨next, q, run, place, same, text⟩
    refine ⟨next, q, by rw [if_pos last, run], ?_, same.trans length, ?_⟩
    · rw [digits, length_append, length_singleton]
      omega
    · rw [digits, text, dropped, map_append, append_assoc]
      rfl

theorem newAscii_spells {text : List Nat} (small : ∀ c ∈ text, c < 0x80) :
    stringScan order .ascii (text.map UInt8.ofNat) = .ok text.length ∧
      Spells order seed ⟨.ascii, text.map UInt8.ofNat, text.length, 0⟩ text := by
  rw [← text_bytes order (rfl : Encoding.ascii.maxBytesPerCodepoint = 1)]
  exact ⟨stringScan_text order small, small, rfl, rfl, .inl rfl⟩

theorem strFromUint_spec (two : 2 ≤ base) (most : base ≤ 36) (large : 65 ≤ tc.length) {num : Nat}
    (bound : num < 2 ^ 64) (minus : Bool) : ∃ str, strFromUint order tc num base minus = .ok str ∧
      Spells order seed str ((if minus then [45] else []) ++ digitsText base num) := by
  have few := length_digitsText two bound
  rcases storeDigits_spec two large (few.trans (by decide)) with
    ⟨stored, q, run, place, length, dropped⟩
  have small := digitsText_lt two most num
  have made : ∀ (memory : List UInt8) (r : Nat) (text : List Nat), (∀ c ∈ text, c < 0x80) →
      r + text.length = 65 → memory.drop r = text.map UInt8.ofNat ++ tc.drop 65 →
      ∃ str, (stringScan order .ascii ((memory.drop r).take (65 - r)) >>= fun strlen =>
        Except.ok (⟨.ascii, (memory.drop r).take (65 - r), strlen, 0⟩ : ParrotString)) = .ok str ∧
        Spells order seed str text := by
    intro memory r text ascii total shown
    rcases newAscii_spells order seed ascii with ⟨scanned, spells⟩
    have count : 65 - r = (text.map UInt8.ofNat).length := by
      rw [length_map]
      omega
    refine ⟨_, ?_, spells⟩
    rw [shown, count, take_left', scanned]
    · rfl
    · rfl
  rw [strFromUint]
  rw [run, Except.ok_bind]
  cases minus with
  | false => exact made stored q (digitsText base num) small place dropped
  | true =>
    cases q with
    | zero => exact absurd place (by omega)
    | succ q =>
      have room : q < stored.length := by omega
      rcases storeBefore_spec room 45 with ⟨signed, store, -, front⟩
      change ∃ str, (storeBefore stored (q + 1) 45 >>= _) = .ok str ∧ _
      rw [store]
      apply made signed q (45 :: digitsText base num)
      · exact forall_mem_cons.mpr ⟨by decide, small⟩
      · rw [length_cons]
        omega
      · rw [front, dropped]
        rfl

theorem strFromIntBase_spec {i : Int} (least : intvalMin ≤ i)
    (greatest : i ≤ intvalMax) (two : 2 ≤ base) (most : base ≤ 36)
    (large : 65 ≤ tc.length) : ∃ str, strFromIntBase order tc i base = .ok str ∧
      Spells order seed str (integerText base i) := by
  have minimum : intvalMin = -9223372036854775808 := rfl
  have maximum : intvalMax = 9223372036854775807 := rfl
  have bound : i.natAbs < 2 ^ 64 := by omega
  have magnitude : toUintval (if decide (i < 0) = true then toIntval (toUintval (-i)) else i) =
      i.natAbs := by
    unfold toIntval toUintval
    by_cases negative : i < 0
    · rw [if_pos (decide_eq_true negative)]
      split <;> omega
    · rw [if_neg (by rwa [decide_eq_true_eq])]
      omega
  rcases strFromUint_spec order seed two most large bound (decide (i < 0)) with ⟨str, run, spells⟩
  refine ⟨str, ?_, ?_⟩
  · rw [strFromIntBase, magnitude, run]
  rw [integerText]
  by_cases negative : i < 0
  · rw [if_pos negative]
    rwa [if_pos (decide_eq_true negative)] at spells
  · rw [if_neg negative]
    rwa [if_neg (by rwa [decide_eq_true_eq])] at spells

def decimalDigits (n : Nat) : List (Fin 10) :=
  if n = 0 then [0]
  else (Nat.digits 10 n).reverse.attach.map fun d =>
    ⟨d.val, digits_lt_base (by decide) (mem_reverse.mp d.property)⟩

theorem digitText_decimalDigits (n : Nat) :
    Numeral.digitText (decimalDigits n) = digitsText 10 n := by
  rw [decimalDigits, digitsText]
  split
  · rfl
  rw [Numeral.digitText, map_map]
  have small : ∀ d ∈ (Nat.digits 10 n).reverse, digitCharacter d = 48 + d := by
    intro d member
    rw [digitCharacter, if_pos (digits_lt_base (by decide) (mem_reverse.mp member))]
  rw [map_congr_left small]
  conv_rhs => rw [← attach_map_subtype_val (Nat.digits 10 n).reverse, map_map]
  rfl

theorem magnitude_decimalDigits (n : Nat) : Numeral.magnitude (decimalDigits n) = n := by
  rw [Numeral.magnitude, decimalDigits]
  split
  · next zero =>
      rw [zero]
      rfl
  rw [map_reverse, map_map]
  have values : (Nat.digits 10 n).reverse.attach.map (Fin.val ∘ fun d =>
      (⟨d.val, digits_lt_base (by decide) (mem_reverse.mp d.property)⟩ : Fin 10)) =
      (Nat.digits 10 n).reverse := attach_map_subtype_val _
  rw [values, reverse_reverse, ofDigits_digits]

theorem leading_integerText (i : Int) : (Numeral.leading (integerText 10 i)).value = i := by
  have text : integerText 10 i =
      (⟨0, if i < 0 then some true else none, decimalDigits i.natAbs⟩ : Numeral).text := by
    rw [integerText, Numeral.text, digitText_decimalDigits]
    split <;> rfl
  rw [text, Numeral.leading_text, Numeral.value, magnitude_decimalDigits]
  dsimp only
  by_cases negative : i < 0
  · rw [if_pos negative, if_pos rfl]
    omega
  · rw [if_neg negative, if_neg (by decide)]
    omega

/-- Integers are written as their minimal numerals inside a buffer of 65 characters, come back
from their text, and are read from the longest numeral that a string of any encoding begins
with, or overflow. -/
theorem integers_and_text (order : ByteOrder) (seed : UInt64) :
    (∀ (i : Int) (base : Nat) (tc : List UInt8), intvalMin ≤ i → i ≤ intvalMax → 2 ≤ base →
        base ≤ 36 → tc.length = 65 → ∃ str, strFromIntBase order tc i base = .ok str ∧
          Spells order seed str (integerText base i)) ∧
      (∀ (i : Int) (buf : List UInt8), intvalMin ≤ i → i ≤ intvalMax → buf.length = 128 →
        ∃ str, strFromInt order buf i = .ok str ∧ strToInt order str = .ok i) ∧
      ∀ (s : ParrotString) (cs : List Nat), Spells order seed s cs →
        (∃ n : Numeral, n.IsLongest cs) ∧ ∀ n : Numeral, n.IsLongest cs → strToInt order s =
              if intvalMin ≤ n.value ∧ n.value ≤ intvalMax then .ok n.value
              else .error (.errOverflow s) := by
  refine ⟨?_, ?_, ?_⟩
  · intro i base tc least greatest two most length
    exact strFromIntBase_spec order seed least greatest two most (le_of_eq length.symm)
  · intro i buf least greatest length
    rcases strFromIntBase_spec order seed least greatest (by decide : 2 ≤ 10) (by decide)
      (show 65 ≤ buf.length by omega) with ⟨str, run, spells⟩
    refine ⟨str, run, ?_⟩
    rw [strToInt_leading spells, leading_integerText, if_pos ⟨least, greatest⟩]
  intro s cs spells
  refine ⟨⟨Numeral.leading cs, (Numeral.isLongest_iff _ cs).mpr rfl⟩, fun n longest => ?_⟩
  rw [(Numeral.isLongest_iff n cs).mp longest]
  exact strToInt_leading spells

/-- The minimum in base 2 fills the buffer. -/
theorem integers_and_text_minimum :
    (∃ str, strFromIntBase .little (replicate 65 0) intvalMin 2 = .ok str ∧
        Spells .little 0 str (integerText 2 intvalMin)) ∧
      (∃ str, strFromInt .little (replicate 128 0) intvalMin = .ok str ∧
        strToInt .little str = .ok intvalMin) ∧
      strToInt .little ⟨.ascii, [43, 53], 2, 0⟩ = .ok 5 := by
  rcases integers_and_text .little 0 with ⟨written, returned, read⟩
  refine ⟨?_, ?_, ?_⟩
  · exact written intvalMin 2 _ (by decide) (by decide) (by decide) (by decide) length_replicate
  · exact returned intvalMin _ (by decide) (by decide) length_replicate
  · have spells := (newAscii_spells .little 0 (show ∀ c ∈ [43, 53], c < 0x80 by decide)).2
    exact (read _ _ spells).2 ⟨0, some false, [5]⟩ ((Numeral.isLongest_iff _ _).mpr (by decide))

end RakudoStar.Strings
