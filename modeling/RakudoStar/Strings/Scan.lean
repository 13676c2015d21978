import RakudoStar.Strings.Unicode

/-!
# Scanning a byte string

`utf8_partial_scan` and `utf16_partial_scan` are one loop, which stops at the end, after a
number of characters, after the delimiter or before an incomplete character. What it accepts is
a text of the code whose words one round recognises.
-/

namespace RakudoStar.Strings

open Foundation List

structure Bounds where
  bytes : Nat
  chars : Int
  delim : Int
  deriving DecidableEq, Repr

/-- A character and its last unit, or an incomplete one and the bytes missing. -/
inductive ScanRound where
  | char (c last : Nat)
  | short (c needed : Nat)
  deriving DecidableEq, Repr

/-- Where the loop stops, in units. -/
structure ScanEnd where
  res : Nat
  i : Nat
  chars : Nat
  c : Int
  deriving DecidableEq, Repr

/-- The loop of a partial scan; a round consumes a unit. -/
def scanLoop (round : Nat → Except Fault ScanRound) (len maxChars : Nat) (delim : Int) :
    Nat → Nat → Nat → Int → Except Fault ScanEnd
  | 0, i, chars, c => .ok ⟨0, i, chars, c⟩
  | fuel + 1, i, chars, c =>
    if i < len ∧ chars < maxChars then do
      match ← round i with
      | .short c needed => .ok ⟨needed, i, chars, c⟩
      | .char c last =>
        if (c : Int) = delim then .ok ⟨0, last + 1, chars + 1, c⟩
        else scanLoop round len maxChars delim fuel (last + 1) (chars + 1) c
    else .ok ⟨0, i, chars, c⟩

/-- `max_chars`, with a negative count for as many as there are units. -/
def maxCharsOf (chars : Int) (len : Nat) : Nat := if chars < 0 then len else chars.toNat

/-- A round recognises exactly the words of a code that fit into the first `len`
units. -/
structure Recognises {U : Type} (code : WordCode Nat U) (units : List U) (len : Nat)
    (round : Nat → Except Fault ScanRound) : Prop where
  sound : ∀ {i c last}, i < len → round i = .ok (.char c last) →
    code.Valid c ∧ units.drop i = code.spell c ++ units.drop (last + 1) ∧
      last + 1 = i + (code.spell c).length ∧ last < len
  complete : ∀ {i c rest}, code.Valid c → units.drop i = code.spell c ++ rest →
    i + (code.spell c).length ≤ len → round i = .ok (.char c (i + (code.spell c).length - 1))
  inside : ∀ {i position}, i < len → round i ≠ .error (.outside position)

namespace Recognises

variable {U : Type} {code : WordCode Nat U} {units : List U} {len : Nat}
  {round : Nat → Except Fault ScanRound} {maxChars : Nat} {delim : Int} {stop : ScanEnd}
  {i chars : Nat} {cs : List Nat}

theorem scanLoop_sound (recognises : Recognises code units len round)
    (fuel : Nat) {c : Int} (start : i ≤ len)
    (run : scanLoop round len maxChars delim fuel i chars c = .ok stop) :
    ∃ cs, code.AllValid cs ∧ units.drop i = code.text cs ++ units.drop stop.i ∧
      stop.i = i + (code.text cs).length ∧ stop.chars = chars + cs.length ∧ stop.i ≤ len := by
  have none : ∃ cs, code.AllValid cs ∧ units.drop i = code.text cs ++ units.drop i ∧
      i = i + (code.text cs).length ∧ chars = chars + cs.length ∧ i ≤ len :=
    ⟨[], nofun, rfl, rfl, rfl, start⟩
  induction fuel generalizing i chars c with
  | zero =>
    cases run
    exact none
  | succ fuel ih =>
    unfold scanLoop at run
    split at run
    · rename_i going
      obtain ⟨found, looked, continued⟩ := Except.of_bind run
      cases found with
      | short c needed =>
        cases continued
        exact none
      | char c last =>
        obtain ⟨valid, here, size, fits⟩ := recognises.sound going.1 looked
        simp only at continued
        split at continued
        · cases continued
          refine ⟨[c], ?_, ?_, ?_, rfl, fits⟩
          · intro other member
            rwa [mem_singleton.mp member]
          · rw [here, WordCode.text_cons, WordCode.text_nil, append_nil]
          · rw [WordCode.text_cons, WordCode.text_nil, append_nil, size]
        have later := ih (by omega) continued ⟨[], nofun, rfl, rfl, rfl, by omega⟩
        obtain ⟨cs, allValid, rest, total, count, bounded⟩ := later
        refine ⟨c :: cs, ?_, ?_, ?_, ?_, bounded⟩
        · intro other member
          cases member with
          | head => exact valid
          | tail _ member => exact allValid other member
        · rw [here, rest, WordCode.text_cons, append_assoc]
        · rw [total, size, WordCode.text_cons, length_append, add_assoc]
        · rw [count, length_cons]
          omega
    · cases run
      exact none

/-- The loop passes a text that fills the units up to `len`, when no character of it
is the delimiter. -/
theorem scanLoop_complete (recognises : Recognises code units len round) (valid : code.AllValid cs)
    (plain : ∀ c ∈ cs, (c : Int) ≠ delim) {fuel i chars : Nat} {c : Int} {rest : List U}
    (here : units.drop i = code.text cs ++ rest) (total : i + (code.text cs).length = len)
    (enough : cs.length ≤ fuel) (room : chars + cs.length ≤ maxChars) :
    ∃ c', scanLoop round len maxChars delim fuel i chars c =
      .ok ⟨0, len, chars + cs.length, c'⟩ := by
  induction cs generalizing fuel i chars c with
  | nil =>
    have stopped : i = len := total
    subst stopped
    cases fuel with
    | zero => exact ⟨c, rfl⟩
    | succ fuel =>
      refine ⟨c, ?_⟩
      rw [scanLoop, if_neg (fun going => lt_irrefl _ going.1)]
      rfl
  | cons s cs ih =>
    have validHead := valid s mem_cons_self
    have nonempty := length_pos_of_ne_nil (code.spell_ne_nil validHead)
    rw [WordCode.text_cons, length_append] at total
    rw [WordCode.text_cons, append_assoc] at here
    rw [length_cons] at enough room
    cases fuel with
    | zero => omega
    | succ fuel =>
      have found := recognises.complete validHead here (by omega)
      have going : i < len ∧ chars < maxChars := ⟨by omega, by omega⟩
      have next : i + (code.spell s).length - 1 + 1 = i + (code.spell s).length := by omega
      have later : units.drop (i + (code.spell s).length) = code.text cs ++ rest := by
        rw [← drop_drop, here, drop_left]
      obtain ⟨c', run⟩ := @ih valid.tail
        (forall_mem_cons.mp plain).2 fuel
        (i + (code.spell s).length) (chars + 1) s later (by omega) (by omega) (by omega)
      refine ⟨c', ?_⟩
      rw [scanLoop, if_pos going, found, Except.ok_bind]
      simp only
      rw [if_neg (plain s mem_cons_self), next, run, length_cons]
      have count : chars + 1 + cs.length = chars + (cs.length + 1) := by omega
      rw [count]

/-- A scan of all units that reaches their end has read a text. -/
theorem scanAll_sound (recognises : Recognises code units units.length round)
    (run : scanLoop round units.length units.length (-1) units.length 0 0 (-1) = .ok stop)
    (complete : stop.i = units.length) :
    ∃ cs, code.AllValid cs ∧ units = code.text cs ∧ stop.chars = cs.length := by
  obtain ⟨cs, valid, whole, _, count, _⟩ := recognises.scanLoop_sound _ (Nat.zero_le _) run
  refine ⟨cs, valid, ?_, ?_⟩
  · rw [drop_zero, complete, drop_length, append_nil] at whole
    exact whole
  · rw [count, zero_add]

theorem scanAll_complete (recognises : Recognises code units units.length round)
    (valid : code.AllValid cs) (whole : units = code.text cs) :
    ∃ c, scanLoop round units.length units.length (-1) units.length 0 0 (-1) =
      .ok ⟨0, units.length, cs.length, c⟩ := by
  have room : cs.length ≤ units.length := by
    rw [whole]
    exact WordCode.length_le_text valid
  have here : units.drop 0 = code.text cs ++ [] := by
    rw [append_nil, drop_zero, whole]
  have total : 0 + (code.text cs).length = units.length := by
    rw [zero_add, whole]
  have plain : ∀ c ∈ cs, (c : Int) ≠ -1 := by
    intro c _
    omega
  obtain ⟨c, run⟩ := recognises.scanLoop_complete valid plain here total room
    (show 0 + cs.length ≤ units.length by omega)
  rw [zero_add] at run
  exact ⟨c, run⟩

theorem scanLoop_inside (recognises : Recognises code units len round)
    (fuel : Nat) {c : Int} {position : Nat} :
    scanLoop round len maxChars delim fuel i chars c ≠ .error (.outside position) := by
  induction fuel generalizing i chars c with
  | zero =>
    intro run
    cases run
  | succ fuel ih =>
    unfold scanLoop
    split
    · rename_i going
      cases looked : round i with
      | error fault =>
        intro run
        cases run
        exact recognises.inside going.1 looked
      | ok found =>
        cases found with
        | short c needed =>
          intro run
          cases run
        | char c last =>
          rw [Except.ok_bind]
          simp only
          split
          · nofun
          · exact ih
    · nofun

end Recognises

end RakudoStar.Strings
