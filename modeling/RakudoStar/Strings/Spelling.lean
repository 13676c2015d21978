import RakudoStar.Strings.Storage

/-!
# Scanned strings and common encodings

`STRING_scan` accepts only strings that spell code points. Two strings are put together in an
encoding that spells both as they stand in memory.
-/

namespace RakudoStar.Strings

open Foundation List Nat

theorem Throws.bind {α β : Type} {result : Except Fault α} (throws : Throws result)
    (next : α → Except Fault β) : Throws (result >>= next) := by
  obtain ⟨type, message, failed⟩ := throws
  refine ⟨type, message, ?_⟩
  rw [failed]
  rfl

theorem checkEach_spec {U : Type} {loop : List U → Except Fault Unit}
    {check : U → Except Fault Unit} {Good : U → Prop} (nil : loop [] = .ok ())
    (cons : ∀ unit units, loop (unit :: units) = check unit >>= fun _ => loop units)
    (each : ∀ unit, Good unit ∧ check unit = .ok () ∨ Throws (check unit)) (units : List U) :
    (∀ unit ∈ units, Good unit) ∧ loop units = .ok () ∨ Throws (loop units) := by
  induction units with
  | nil => exact .inl ⟨nofun, nil⟩
  | cons unit units ih =>
    rw [cons]
    rcases each unit with ⟨good, checked⟩ | throws
    · rw [checked, Except.ok_bind]
      rcases ih with ⟨goodRest, ran⟩ | throws
      · exact .inl ⟨forall_mem_cons.mpr ⟨good, goodRest⟩, ran⟩
      · exact .inr throws
    · exact .inr (throws.bind _)

theorem asciiScanLoop_spec (p : List UInt8) :
    (∀ byte ∈ p, byte.toNat < 0x80) ∧ asciiScanLoop p = .ok () ∨ Throws (asciiScanLoop p) := by
  apply @checkEach_spec UInt8 asciiScanLoop (fun byte => asciiScanLoop [byte]) _ rfl
  · intro byte p
    rw [asciiScanLoop, asciiScanLoop]
    split <;> rfl
  intro byte
  unfold asciiScanLoop
  split
  · exact .inr ⟨_, _, rfl⟩
  · rename_i small
    exact .inl ⟨Nat.lt_of_not_le small, rfl⟩

theorem ucs2ScanLoop_spec (ptr : List UInt16) :
    (∀ unit ∈ ptr, Encoding.ucs2.Holds unit.toNat) ∧ ucs2ScanLoop ptr = .ok () ∨
      Throws (ucs2ScanLoop ptr) := by
  apply @checkEach_spec UInt16 ucs2ScanLoop (fun unit => ucs2CheckCodepoint unit.toNat) _ rfl
    (fun _ _ => rfl)
  intro unit
  by_cases valid : IsCharacter unit.toNat ∧ unit.toNat < 0x10000
  · exact .inl ⟨valid, ucs2CheckCodepoint_eq_ok_iff.mpr valid⟩
  right
  cases checked : ucs2CheckCodepoint unit.toNat with
  | ok _ => exact absurd (ucs2CheckCodepoint_eq_ok_iff.mp checked) valid
  | error fault =>
    unfold ucs2CheckCodepoint at checked
    split at checked
    · cases checked
      exact ⟨_, _, rfl⟩
    · cases checked

theorem ucs4ScanLoop_spec (ptr : List Nat) :
    (∀ c ∈ ptr, IsCharacter c) ∧ ucs4ScanLoop ptr = .ok () ∨ Throws (ucs4ScanLoop ptr) := by
  apply @checkEach_spec Nat ucs4ScanLoop (fun c => ucs4ScanLoop [c]) _ rfl
  · intro c ptr
    rw [ucs4ScanLoop, ucs4ScanLoop]
    split <;> rfl
  intro c
  unfold ucs4ScanLoop
  split
  · exact .inr ⟨_, _, rfl⟩
  rename_i valid
  rw [Bool.not_eq_true, isInvalid_eq_false_iff] at valid
  exact .inl ⟨valid, rfl⟩

theorem split4_codesOf (order : ByteOrder) (bytes : List UInt8) (aligned : bytes.length % 4 = 0) :
    (codesOf order bytes).flatMap order.split4 = bytes := by
  match bytes with
  | [] => rfl
  | [_] => cases aligned
  | [_, _] => cases aligned
  | [_, _, _] => cases aligned
  | a :: b :: c :: d :: bytes =>
    have alignedRest : bytes.length % 4 = 0 := by
      rw [length_cons, length_cons, length_cons, length_cons] at aligned
      omega
    have rest := split4_codesOf order bytes alignedRest
    cases order with
    | little =>
      change toBytes 4 (ofBytes [a, b, c, d]) ++ (codesOf .little bytes).flatMap _ = _
      rw [rest]
      exact congrArg (· ++ bytes) (toBytes_ofBytes [a, b, c, d])
    | big =>
      change (toBytes 4 (ofBytes [d, c, b, a])).reverse ++ (codesOf .big bytes).flatMap _ = _
      rw [rest]
      exact congrArg (fun word : List UInt8 => word.reverse ++ bytes) (toBytes_ofBytes [d, c, b, a])

theorem length_codesOf (order : ByteOrder) (bytes : List UInt8) :
    (codesOf order bytes).length = bytes.length / 4 := by
  match bytes with
  | [] => rfl
  | [_] => simp [codesOf]
  | [_, _] => simp [codesOf]
  | [_, _, _] => simp [codesOf]
  | a :: b :: c :: d :: bytes =>
    have rest := length_codesOf order bytes
    have one : (codesOf order (a :: b :: c :: d :: bytes)).length =
        (codesOf order bytes).length + 1 := rfl
    rw [one, rest, length_cons, length_cons, length_cons, length_cons]
    omega

theorem spells_single (order : ByteOrder) (seed : UInt64) {encoding : Encoding}
    (single : encoding.maxBytesPerCodepoint = 1) {bytes : List UInt8}
    (holds : ∀ byte ∈ bytes, encoding.Holds byte.toNat) :
    Spells order seed ⟨encoding, bytes, bytes.length, 0⟩ (bytes.map UInt8.toNat) where
  holds := by
    intro c member
    obtain ⟨byte, present, rfl⟩ := mem_map.mp member
    exact holds byte present
  bytes := by
    have back : UInt8.ofNat ∘ UInt8.toNat = id := funext fun byte => UInt8.ofNat_toNat
    rw [text_bytes order single, map_map, back, map_id]
  strlen := (length_map _).symm
  cached := .inl rfl

/-- What `STRING_scan` accepts is well formed, and it has counted the code points. -/
theorem stringScan_spec (order : ByteOrder) (seed : UInt64) (encoding : Encoding)
    (bytes : List UInt8) : Throws (stringScan order encoding bytes) ∨ ∃ strlen cs,
      stringScan order encoding bytes = .ok strlen ∧
        Spells order seed ⟨encoding, bytes, strlen, 0⟩ cs := by
  have scanned : ∀ {result : Except Fault Nat},
      (∀ position, result ≠ .error (.outside position)) →
      (∀ n, result = .ok n → ∃ cs, Spells order seed ⟨encoding, bytes, n, 0⟩ cs) →
      Throws result ∨ ∃ strlen cs, result = .ok strlen ∧
        Spells order seed ⟨encoding, bytes, strlen, 0⟩ cs := by
    intro result inside spelled
    cases result with
    | ok n =>
      obtain ⟨cs, spells⟩ := spelled n rfl
      exact .inr ⟨n, cs, rfl, spells⟩
    | error fault =>
      cases fault with
      | thrown type message => exact .inl ⟨type, message, rfl⟩
      | outside position => exact absurd rfl (inside position)
  cases encoding with
  | ascii =>
    rcases asciiScanLoop_spec bytes with ⟨small, ran⟩ | throws
    · refine .inr ⟨bytes.length, _, ?_, spells_single order seed rfl small⟩
      rw [stringScan, ran]
      rfl
    · exact .inl (throws.bind _)
  | latin1 => exact .inr ⟨_, _, rfl, spells_single order seed rfl fun byte _ => byte.toNat_lt⟩
  | binary => exact .inr ⟨_, _, rfl, spells_single order seed rfl fun byte _ => byte.toNat_lt⟩
  | utf8 =>
    apply scanned (utf8_exactScan.inside bytes)
    intro n run
    obtain ⟨cs, valid, rfl, rfl⟩ := (utf8Scan_eq_ok_iff bytes n).mp run
    exact ⟨cs, valid, rfl, rfl, .inl rfl⟩
  | utf16 =>
    apply scanned ((utf16_exactScan order).inside bytes)
    intro n run
    obtain ⟨cs, valid, rfl, rfl⟩ := (utf16Scan_eq_ok_iff order bytes n).mp run
    exact ⟨cs, valid, (text_utf16 order cs).symm, rfl, .inl rfl⟩
  | ucs2 =>
    rw [stringScan, and_one_is_mod, shiftRight_eq_div_pow]
    by_cases odd : bytes.length % 2 ≠ 0
    · rw [if_pos odd]
      exact .inl ⟨_, _, rfl⟩
    rw [if_neg odd]
    rcases ucs2ScanLoop_spec (unitsOf order bytes) with ⟨valid, ran⟩ | throws
    · rw [ran, Except.ok_bind]
      refine .inr ⟨_, (unitsOf order bytes).map UInt16.toNat, rfl, ?_, ?_, ?_, .inl rfl⟩
      · intro c member
        obtain ⟨unit, present, rfl⟩ := mem_map.mp member
        exact valid unit present
      · have back : UInt16.ofNat ∘ UInt16.toNat = id := funext fun unit => UInt16.ofNat_toNat
        rw [text_ucs2, map_map, back, map_id,
          bytesOf_unitsOf order bytes (Decidable.not_not.mp odd)]
      · rw [length_map, length_unitsOf]
    · exact .inl (throws.bind _)
  | ucs4 =>
    have mask : bytes.length &&& 3 = bytes.length % 4 := and_two_pow_sub_one_eq_mod bytes.length 2
    rw [stringScan, mask, shiftRight_eq_div_pow]
    by_cases unaligned : bytes.length % 4 ≠ 0
    · rw [if_pos unaligned]
      exact .inl ⟨_, _, rfl⟩
    rw [if_neg unaligned]
    rcases ucs4ScanLoop_spec (codesOf order bytes) with ⟨valid, ran⟩ | throws
    · rw [ran, Except.ok_bind]
      refine .inr ⟨_, codesOf order bytes, rfl, valid, ?_, ?_, .inl rfl⟩
      · exact (split4_codesOf order bytes (Decidable.not_not.mp unaligned)).symm
      · rw [length_codesOf]
    · exact .inl (throws.bind _)

theorem stringScan_text (order : ByteOrder) {encoding : Encoding} {cs : List Nat}
    (valid : (codeOf order encoding).AllValid cs) :
    stringScan order encoding ((codeOf order encoding).text cs) = .ok cs.length := by
  cases encoding with
  | ascii =>
    have accepted : asciiScanLoop (cs.map UInt8.ofNat) = .ok () := by
      induction cs with
      | nil => rfl
      | cons c cs ih =>
        have small : c < 0x80 := valid c mem_cons_self
        rw [map_cons, asciiScanLoop, UInt8.toNat_ofNat', mod_eq_of_lt (by omega),
          if_neg small.not_ge]
        exact ih valid.tail
    rw [text_bytes order rfl, stringScan, accepted, length_map]
    rfl
  | latin1 => rw [text_bytes order rfl, stringScan, length_map]
  | binary => rw [text_bytes order rfl, stringScan, length_map]
  | utf8 => exact (utf8Scan_eq_ok_iff _ _).mpr ⟨cs, valid, rfl, rfl⟩
  | utf16 =>
    rw [text_utf16]
    exact (utf16Scan_eq_ok_iff order _ _).mpr ⟨cs, valid, rfl, rfl⟩
  | ucs2 =>
    have accepted : ucs2ScanLoop (cs.map UInt16.ofNat) = .ok () := by
      induction cs with
      | nil => rfl
      | cons c cs ih =>
        have held : IsCharacter c ∧ c < 0x10000 := valid c mem_cons_self
        rw [map_cons, ucs2ScanLoop, toNat_ofNat16_of_lt held.2,
          ucs2CheckCodepoint_eq_ok_iff.mpr held]
        exact ih valid.tail
    rw [text_ucs2, stringScan, unitsOf_bytesOf, accepted, length_bytesOf, length_map,
      and_one_is_mod, mul_mod_right, shiftRight_eq_div_pow, Nat.mul_div_cancel_left _ Nat.two_pos]
    rfl
  | ucs4 =>
    have accepted : ucs4ScanLoop cs = .ok () := by
      induction cs with
      | nil => rfl
      | cons c cs ih =>
        rw [ucs4ScanLoop, (isInvalid_eq_false_iff c).mpr (valid c mem_cons_self)]
        exact ih valid.tail
    have mask : (cs.length * 4) &&& 3 = 0 :=
      (and_two_pow_sub_one_eq_mod _ 2).trans (mul_mod_left ..)
    have length : ((codeOf order .ucs4).text cs).length = cs.length * 4 := by
      rw [← WordCode.boundary_length]
      exact boundary_fixed (length_spell_ucs4 order) cs le_rfl
    rw [stringScan, codesOf_text order valid, accepted, length, mask, shiftRight_eq_div_pow,
      Nat.mul_div_cancel _ (by decide)]
    rfl

variable {order : ByteOrder} {seed : UInt64} {str : ParrotString}

section

variable {cs ds : List Nat} {enc source : Encoding} {left right : ParrotString}

/-- Code points that two encodings spell alike. -/
def SpeltAlike (order : ByteOrder) (enc source : Encoding) (cs : List Nat) : Prop :=
  ∀ c ∈ cs, enc.Holds c ∧ enc.spell order c = source.spell order c

theorem SpeltAlike.text (alike : SpeltAlike order enc source cs) :
    (codeOf order enc).text cs = (codeOf order source).text cs :=
  flatMap_congr fun c member => (alike c member).2

theorem SpeltAlike.subset (alike : SpeltAlike order enc source cs) {part : List Nat}
    (within : ∀ c ∈ part, c ∈ cs) : SpeltAlike order enc source part :=
  fun c member => alike c (within c member)

theorem Spells.alike (spells : Spells order seed str cs) :
    SpeltAlike order str.encoding str.encoding cs :=
  fun c member => ⟨spells.holds c member, rfl⟩

theorem single_alike (one : enc.maxBytesPerCodepoint = 1)
    (other : source.maxBytesPerCodepoint = 1) (holds : ∀ c ∈ cs, enc.Holds c) :
    SpeltAlike order enc source cs := by
  have byte : ∀ {encoding : Encoding} (c : Nat), encoding.maxBytesPerCodepoint = 1 →
      encoding.spell order c = [UInt8.ofNat c] := by
    intro encoding c single
    cases encoding <;> first | rfl | cases single
  exact fun c member => ⟨holds c member, (byte c one).trans (byte c other).symm⟩

theorem single_holds {c : Nat} (one : enc.maxBytesPerCodepoint = 1)
    (other : source.maxBytesPerCodepoint = 1) (holds : source.Holds c)
    (wider : source = .ascii ∨ enc = .binary) : enc.Holds c := by
  have below : c < 0x100 := by
    cases source with
    | ascii => exact lt_trans holds (by decide)
    | latin1 | binary => exact holds
    | utf8 | utf16 | ucs2 | ucs4 => cases other
  rcases wider with rfl | rfl
  · cases enc with
    | ascii => exact holds
    | latin1 | binary => exact below
    | utf8 | utf16 | ucs2 | ucs4 => cases one
  · exact below

theorem utf8_alike_ascii (small : ∀ c ∈ cs, c < 0x80) : SpeltAlike order .utf8 .ascii cs := by
  intro c member
  have ascii : Encoding.ascii.Holds c := small c member
  exact ⟨ascii.isCharacter, utf8Word_one (small c member)⟩

theorem ascii_alike_utf8 (small : ∀ c ∈ cs, c < 0x80) : SpeltAlike order .ascii .utf8 cs :=
  fun c member => ⟨small c member, (utf8Word_one (small c member)).symm⟩

theorem utf16_alike_ucs2 (holds : ∀ c ∈ cs, Encoding.ucs2.Holds c) :
    SpeltAlike order .utf16 .ucs2 cs := by
  intro c member
  refine ⟨(holds c member).1, ?_⟩
  change bytesOf order (utf16Word c) = order.split (UInt16.ofNat c)
  rw [utf16Word_one (holds c member).2]
  exact append_nil _

theorem small_of_length
    (same : ((codeOf order .utf8).text cs).length = cs.length) : ∀ c ∈ cs, c < 0x80 := by
  have atLeast : ∀ cs : List Nat, cs.length ≤ ((codeOf order .utf8).text cs).length := by
    intro cs
    induction cs with
    | nil => exact le_refl 0
    | cons c cs ih =>
      have positive := length_pos_of_ne_nil (utf8Word_ne_nil c)
      rw [WordCode.text_cons, length_append, length_cons]
      change _ ≤ (utf8Word c).length + _
      omega
  induction cs with
  | nil => exact nofun
  | cons c cs ih =>
    have positive := length_pos_of_ne_nil (utf8Word_ne_nil c)
    have rest := atLeast cs
    rw [WordCode.text_cons, length_append, length_cons] at same
    change (utf8Word c).length + _ = _ at same
    refine forall_mem_cons.mpr ⟨?_, ih (by omega)⟩
    have one : (utf8Word c).length = 1 := by omega
    unfold utf8Word at one
    split at one
    · assumption
    split at one
    · cases one
    · split at one <;> cases one

theorem Spells.relabel (spells : Spells order seed str cs)
    (alike : SpeltAlike order enc str.encoding cs) :
    Spells order seed ⟨enc, str.bytes, str.strlen, 0⟩ cs where
  holds := fun c member => (alike c member).1
  bytes := spells.bytes.trans alike.text.symm
  strlen := spells.strlen
  cached := .inl rfl

theorem Spells.append (spellsLeft : Spells order seed left cs)
    (spellsRight : Spells order seed right ds) (same : right.encoding = left.encoding) :
    Spells order seed
      ⟨left.encoding, left.bytes ++ right.bytes, left.strlen + right.strlen, 0⟩ (cs ++ ds) where
  holds := by
    intro c member
    cases mem_append.mp member with
    | inl inLeft => exact spellsLeft.holds c inLeft
    | inr inRight =>
      have holds := spellsRight.holds c inRight
      rw [same] at holds
      exact holds
  bytes := by
    rw [WordCode.text_append, spellsLeft.bytes, spellsRight.bytes, same]
  strlen := by rw [length_append, spellsLeft.strlen, spellsRight.strlen]
  cached := .inl rfl

theorem repCompatible_spec {s t : StringHeader}
    (spellsLeft : Spells order seed left cs) (spellsRight : Spells order seed right ds)
    (encodingLeft : left.encoding = s.encoding) (encodingRight : right.encoding = t.encoding)
    (strlenLeft : left.strlen = s.strlen) (strlenRight : right.strlen = t.strlen)
    (usedLeft : left.bytes.length = s.bufused) (usedRight : right.bytes.length = t.bufused)
    (compatible : StringHeap.repCompatible s t = some enc) :
    SpeltAlike order enc s.encoding cs ∧ SpeltAlike order enc t.encoding ds := by
  have alikeLeft := spellsLeft.alike
  have alikeRight := spellsRight.alike
  have holdsLeft := spellsLeft.holds
  have holdsRight := spellsRight.holds
  have bytesLeft := spellsLeft.bytes
  have bytesRight := spellsRight.bytes
  rw [encodingLeft] at alikeLeft holdsLeft bytesLeft
  rw [encodingRight] at alikeRight holdsRight bytesRight
  unfold StringHeap.repCompatible at compatible
  split at compatible
  · rename_i equal
    cases compatible
    rw [← equal] at alikeRight ⊢
    exact ⟨alikeLeft, alikeRight⟩
  split at compatible
  · rename_i single
    -- the wider one of two single-byte encodings
    have widerLeft : t.encoding = .ascii ∨ s.encoding = .binary →
        SpeltAlike order s.encoding s.encoding cs ∧ SpeltAlike order s.encoding t.encoding ds :=
      fun wider => ⟨alikeLeft, single_alike single.1 single.2 fun c member =>
        single_holds single.1 single.2 (holdsRight c member) wider⟩
    have widerRight : s.encoding = .ascii ∨ t.encoding = .binary →
        SpeltAlike order t.encoding s.encoding cs ∧ SpeltAlike order t.encoding t.encoding ds :=
      fun wider => ⟨single_alike single.2 single.1 fun c member =>
        single_holds single.2 single.1 (holdsLeft c member) wider, alikeRight⟩
    split at compatible
    · rename_i ascii
      cases compatible
      exact widerLeft (.inl ascii)
    split at compatible
    · rename_i ascii
      cases compatible
      exact widerRight (.inl ascii)
    split at compatible
    · rename_i binary
      cases compatible
      exact widerLeft (.inr binary)
    split at compatible
    · rename_i binary
      cases compatible
      exact widerRight (.inr binary)
    · cases compatible
  · split at compatible
    · rename_i pair
      rw [pair.1] at alikeLeft bytesLeft compatible ⊢
      rw [pair.2] at alikeRight holdsRight compatible ⊢
      split at compatible
      · rename_i short
        cases compatible
        have small : ∀ c ∈ cs, c < 0x80 := by
          apply @small_of_length order
          rw [← bytesLeft, usedLeft, ← short, ← strlenLeft, spellsLeft.strlen]
        exact ⟨ascii_alike_utf8 small, alikeRight⟩
      · cases compatible
        exact ⟨alikeLeft, utf8_alike_ascii holdsRight⟩
    split at compatible
    · rename_i pair
      rw [pair.1] at alikeRight bytesRight compatible ⊢
      rw [pair.2] at alikeLeft holdsLeft compatible ⊢
      split at compatible
      · rename_i short
        cases compatible
        have small : ∀ c ∈ ds, c < 0x80 := by
          apply @small_of_length order
          rw [← bytesRight, usedRight, ← short, ← strlenRight, spellsRight.strlen]
        exact ⟨alikeLeft, ascii_alike_utf8 small⟩
      · cases compatible
        exact ⟨utf8_alike_ascii holdsLeft, alikeRight⟩
    · cases compatible

end

/-- The iterator stands before the last code points of the string. -/
def AtSuffix (order : ByteOrder) (str : ParrotString) (cs : List Nat) (iter : StringIter)
    (rest : List Nat) : Prop :=
  ∃ k, k ≤ cs.length ∧ cs.drop k = rest ∧ iter = stringIterAt order str.encoding cs k

section

variable {cs : List Nat} {c : Nat} {iter : StringIter} {rest : List Nat}

theorem atSuffix_init (order : ByteOrder) (str : ParrotString) (cs : List Nat) :
    AtSuffix order str cs .init cs :=
  ⟨0, zero_le _, rfl, rfl⟩

theorem AtSuffix.read (spells : Spells order seed str cs)
    (before : AtSuffix order str cs iter (c :: rest)) :
    ∃ next, iterGetAndAdvanceOf order str iter = .ok (c, next) ∧
      AtSuffix order str cs next rest := by
  rcases before with ⟨k, -, suffix, rfl⟩
  have inside : k < cs.length := by
    apply Nat.lt_of_not_le
    intro outside
    rw [drop_eq_nil_of_le outside] at suffix
    cases suffix
  rw [drop_eq_getElem_cons inside] at suffix
  obtain ⟨rfl, rfl⟩ := cons_eq_cons.mp suffix
  exact ⟨_, iterGetAndAdvanceOf_at spells inside, k + 1, inside, rfl, rfl⟩

theorem AtSuffix.mem (there : AtSuffix order str cs iter rest) (member : c ∈ rest) : c ∈ cs := by
  rcases there with ⟨k, -, rfl, -⟩
  exact mem_of_mem_drop member

theorem Encoding.Holds.lt {encoding : Encoding} (holds : encoding.Holds c) : c < 0x110000 := by
  cases encoding with
  | ascii | latin1 | binary => exact lt_trans holds (by decide)
  | utf8 | utf16 => exact lt_succ_of_le holds.2.2.2
  | ucs2 => exact lt_succ_of_le holds.1.2.2.2
  | ucs4 => exact lt_succ_of_le holds.2.2.2

theorem Spells.lt (spells : Spells order seed str cs) (member : c ∈ cs) : c < 0x110000 :=
  Encoding.Holds.lt (spells.holds c member)

theorem iterSkip_init (spells : Spells order seed str cs) {offset : Nat}
    (inside : offset ≤ cs.length) :
    iterSkipOf order str .init offset = .ok (stringIterAt order str.encoding cs offset) := by
  have skipped := @iterSkipOf_at order seed str cs spells 0 offset (by omega) (zero_le _) (by omega)
  have arrived : ((0 : Nat) + (offset : Int)).toNat = offset := by omega
  rw [arrived] at skipped
  exact skipped

end

end RakudoStar.Strings
