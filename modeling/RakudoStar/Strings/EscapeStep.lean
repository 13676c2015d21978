import RakudoStar.Strings.Escape

/-!
# What escape sequences mean

The documented sequences as a grammar on code points, the step of `Parrot_str_unescape_string`,
and the sources at which they differ.
-/

namespace RakudoStar.Strings

open Foundation List Option Nat

/-- The characters behind a backslash that begin a documented sequence. -/
def BeginsSequence (c : Nat) : Prop :=
  (unescapeLetters.lookup c).isSome ∨ c = 99 ∨ c = 120 ∨ c = 117 ∨ c = 85 ∨ IsOctalDigit c

/-- The first characters of a source, what they stand for, and what is left. -/
inductive Sequence : List Nat → Nat → List Nat → Prop
  | plain {c : Nat} {rest : List Nat} (other : c ≠ 92) : Sequence (c :: rest) c rest
  | letter {c v : Nat} {rest : List Nat} (found : unescapeLetters.lookup c = some v) :
      Sequence (92 :: c :: rest) v rest
  | control {c : Nat} {rest : List Nat} (upper : 65 ≤ c ∧ c ≤ 90) :
      Sequence (92 :: 99 :: c :: rest) (c - 65 + 1) rest
  | hex {digits rest : List Nat} (hexDigits : ∀ c ∈ digits, IsHexDigit c) (some_ : digits ≠ [])
      (most : digits.length ≤ 2) (maximal : digits.length = 2 ∨ ∀ c ∈ rest.head?, ¬IsHexDigit c) :
      Sequence (92 :: 120 :: (digits ++ rest)) (strtol 16 digits) rest
  | braced {digits rest : List Nat} (hexDigits : ∀ c ∈ digits, IsHexDigit c) (some_ : digits ≠ [])
      (most : digits.length ≤ 8) :
      Sequence (92 :: 120 :: 123 :: (digits ++ 125 :: rest)) (strtol 16 digits) rest
  | short {digits rest : List Nat} (hexDigits : ∀ c ∈ digits, IsHexDigit c)
      (four : digits.length = 4) : Sequence (92 :: 117 :: (digits ++ rest)) (strtol 16 digits) rest
  | long {digits rest : List Nat} (hexDigits : ∀ c ∈ digits, IsHexDigit c)
      (eight : digits.length = 8) : Sequence (92 :: 85 :: (digits ++ rest)) (strtol 16 digits) rest
  | octal {digits rest : List Nat} (octalDigits : ∀ c ∈ digits, IsOctalDigit c)
      (some_ : digits ≠ []) (most : digits.length ≤ 3)
      (maximal : digits.length = 3 ∨ ∀ c ∈ rest.head?, ¬IsOctalDigit c) :
      Sequence (92 :: (digits ++ rest)) (strtol 8 digits) rest
  | other {c : Nat} {rest : List Nat} (plain : ¬BeginsSequence c) :
      Sequence (92 :: c :: rest) c rest

/-- What a source stands for. -/
inductive Denotes : List Nat → List Nat → Prop
  | nil : Denotes [] []
  | cons {cs rest vs : List Nat} {v : Nat} (first : Sequence cs v rest) (later : Denotes rest vs) :
      Denotes cs (v :: vs)

/-- It stores a code point and goes on, stops, or fails. -/
inductive Step where
  | put (v : Nat) (rest : List Nat)
  | stop
  | illegal
  | outside
  deriving DecidableEq

/-- `none` if `isxdigit` is asked about a character beyond its table. -/
def hexRun : Nat → List Nat → Option (List Nat × List Nat)
  | 0, cs => some ([], cs)
  | _ + 1, [] => some ([], [])
  | n + 1, c :: cs =>
    if c < 256 then
      if IsHexDigit c then (hexRun n cs).map fun run => (c :: run.1, run.2)
      else some ([], c :: cs)
    else none

/-- Up to `n` octal digits and what is left. -/
def octalRun : Nat → List Nat → List Nat × List Nat
  | 0, cs => ([], cs)
  | _ + 1, [] => ([], [])
  | n + 1, c :: cs =>
    if IsOctalDigit c then (c :: (octalRun n cs).1, (octalRun n cs).2) else ([], c :: cs)

def hexStep (cs : List Nat) : Step :=
  match hexRun 2 cs with
  | none => .outside
  | some ([], _) => .illegal
  | some (digits, rest) => .put (strtol 16 digits) rest

def bracedStep (cs : List Nat) : Step :=
  match hexRun 8 cs with
  | none => .outside
  | some (_, []) => .illegal
  | some (digits, c :: rest) =>
    if c = 125 then if digits = [] then .illegal else .put (strtol 16 digits) rest
    else if c < 256 then .illegal else .outside

/-- The code, unlike an exact reader, is content with fewer digits at the end of the source. -/
def fixedStep (exact : Bool) (count : Nat) (cs : List Nat) : Step :=
  match hexRun count cs with
  | none => .outside
  | some (digits, rest) =>
    if digits.length < count ∧ (exact ∨ rest ≠ []) then .illegal
    else .put (strtol 16 digits) rest

/-- The character that ends fewer than three octal digits is dropped at the end. -/
def octalStep (exact : Bool) (c : Nat) (cs : List Nat) : Step :=
  let digits := c :: (octalRun 2 cs).1
  let rest := (octalRun 2 cs).2
  if exact = false ∧ digits.length < 3 ∧ rest.length = 1 then .put (strtol 8 digits) []
  else .put (strtol 8 digits) rest

def atSourceEnd (exact : Bool) : Step := if exact then .illegal else .put 92 []

/-- The step behind a backslash. -/
def switchStep (exact : Bool) (c : Nat) (cs : List Nat) : Step :=
  match unescapeLetters.lookup c with
  | some v => .put v cs
  | none =>
    if c = 99 then
      match cs with
      | [] => atSourceEnd exact
      | x :: rest => if x < 65 ∨ 90 < x then .illegal else .put (x - 65 + 1) rest
    else if c = 120 then
      match cs with
      | [] => atSourceEnd exact
      | x :: rest => if x = 123 then bracedStep rest else hexStep (x :: rest)
    else if c = 117 then fixedStep exact 4 cs
    else if c = 85 then fixedStep exact 8 cs
    else if IsOctalDigit c then octalStep exact c cs
    else .put c cs

/-- The step at the beginning of a source: an exact one, or the one that the code takes. -/
def stepAt (exact : Bool) : List Nat → Step
  | [] => .stop
  | c :: cs =>
    if c ≠ 92 then .put c cs
    else
      match cs with
      | [] => .stop
      | d :: cs => switchStep exact d cs

variable {n : Nat}

theorem hexRun_spec {cs digits rest : List Nat} (run : hexRun n cs = some (digits, rest)) :
    cs = digits ++ rest ∧ (∀ c ∈ digits, IsHexDigit c) ∧ digits.length ≤ n ∧
      (digits.length = n ∨ ∀ c ∈ rest.head?, ¬IsHexDigit c) := by
  induction n generalizing cs digits with
  | zero =>
    cases run
    exact ⟨rfl, nofun, le_refl 0, .inl rfl⟩
  | succ n ih =>
    cases cs with
    | nil =>
      cases run
      exact ⟨rfl, nofun, zero_le _, .inr fun _ member => absurd member (not_mem_none _)⟩
    | cons c cs =>
      rw [hexRun] at run
      by_cases small : c < 256
      · rw [if_pos small] at run
        by_cases hex : IsHexDigit c
        · rw [if_pos hex] at run
          obtain ⟨⟨later, left⟩, rest_, same⟩ := map_eq_some_iff.mp run
          cases same
          obtain ⟨split, all, most, maximal⟩ := ih rest_
          refine ⟨congrArg (c :: ·) split, forall_mem_cons.mpr ⟨hex, all⟩, succ_le_succ most, ?_⟩
          exact maximal.imp_left fun full => congrArg (· + 1) full
        rw [if_neg hex] at run
        cases run
        refine ⟨rfl, nofun, zero_le _, ?_⟩
        right
        intro d member
        cases member
        exact hex
      · rw [if_neg small] at run
        cases run

theorem hexRun_append {digits rest : List Nat} (all : ∀ c ∈ digits, IsHexDigit c)
    (most : digits.length ≤ n)
    (ends : digits.length = n ∨ ∀ c ∈ rest.head?, c < 256 ∧ ¬IsHexDigit c) :
    hexRun n (digits ++ rest) = some (digits, rest) := by
  induction digits generalizing n with
  | nil =>
    rw [nil_append]
    cases n with
    | zero => rfl
    | succ n =>
      cases rest with
      | nil => rfl
      | cons c rest =>
        rcases ends with full | stops
        · cases full
        · obtain ⟨small, other⟩ := stops c rfl
          rw [hexRun, if_pos small, if_neg other]
  | cons c digits ih =>
    obtain ⟨n, rfl⟩ : ∃ k, n = k + 1 := exists_eq_add_one.mpr (lt_of_lt_of_le
      (succ_pos digits.length) most)
    have hex := all c mem_cons_self
    have small : c < 256 := by
      unfold IsHexDigit at hex
      omega
    have later := ih (forall_mem_cons.mp all).2
      (le_of_succ_le_succ most) (ends.imp_left fun full => Nat.succ.inj full)
    rw [cons_append, hexRun, if_pos small, if_pos hex, later]
    rfl

variable {cs : List Nat} {c : Nat} (exact : Bool)

theorem hexRun_eq_none_iff : hexRun n cs = none ↔ ∃ digits c rest, cs = digits ++ c :: rest ∧
      (∀ d ∈ digits, IsHexDigit d) ∧ digits.length < n ∧ 256 ≤ c := by
  constructor
  · intro fails
    induction n generalizing cs with
    | zero => cases fails
    | succ n ih =>
      cases cs with
      | nil => cases fails
      | cons c cs =>
        rw [hexRun] at fails
        by_cases small : c < 256
        · rw [if_pos small] at fails
          by_cases hex : IsHexDigit c
          · rw [if_pos hex] at fails
            obtain ⟨digits, d, rest, rfl, all, few, beyond⟩ := ih (map_eq_none_iff.mp fails)
            exact ⟨c :: digits, d, rest, rfl, forall_mem_cons.mpr ⟨hex, all⟩,
              succ_lt_succ few, beyond⟩
          · rw [if_neg hex] at fails
            cases fails
        · exact ⟨[], c, cs, rfl, nofun, succ_pos n, Nat.le_of_not_lt small⟩
  · rintro ⟨digits, c, rest, rfl, all, few, beyond⟩
    induction digits generalizing n with
    | nil =>
      obtain ⟨n, rfl⟩ : ∃ k, n = k + 1 := exists_eq_add_one.mpr few
      rw [nil_append, hexRun, if_neg beyond.not_gt]
    | cons d digits ih =>
      obtain ⟨n, rfl⟩ : ∃ k, n = k + 1 := exists_eq_add_one.mpr ((succ_pos _).trans few)
      have hex := all d mem_cons_self
      have small : d < 256 := by
        unfold IsHexDigit at hex
        omega
      have later := ih (forall_mem_cons.mp all).2 (lt_of_succ_lt_succ few)
      rw [cons_append, hexRun, if_pos small, if_pos hex, later]
      rfl

theorem octalRun_spec (n : Nat) (cs : List Nat) :
    cs = (octalRun n cs).1 ++ (octalRun n cs).2 ∧ (∀ c ∈ (octalRun n cs).1, IsOctalDigit c) ∧
      (octalRun n cs).1.length ≤ n ∧
      ((octalRun n cs).1.length = n ∨ ∀ c ∈ (octalRun n cs).2.head?, ¬IsOctalDigit c) := by
  induction n generalizing cs with
  | zero => exact ⟨rfl, nofun, le_refl 0, .inl rfl⟩
  | succ n ih =>
    cases cs with
    | nil =>
      exact ⟨rfl, nofun, zero_le _, .inr fun _ member => absurd member (not_mem_none _)⟩
    | cons c cs =>
      rw [octalRun]
      by_cases octal : IsOctalDigit c
      · obtain ⟨split, all, most, maximal⟩ := ih cs
        rw [if_pos octal]
        exact ⟨congrArg (c :: ·) split, forall_mem_cons.mpr ⟨octal, all⟩,
          succ_le_succ most, maximal.imp_left fun full => congrArg (· + 1) full⟩
      rw [if_neg octal]
      refine ⟨rfl, nofun, zero_le _, ?_⟩
      right
      intro d member
      cases member
      exact octal

theorem octalRun_append {digits rest : List Nat} (all : ∀ c ∈ digits, IsOctalDigit c)
    (most : digits.length ≤ n) (ends : digits.length = n ∨ ∀ c ∈ rest.head?, ¬IsOctalDigit c) :
    octalRun n (digits ++ rest) = (digits, rest) := by
  induction digits generalizing n with
  | nil =>
    rw [nil_append]
    cases n with
    | zero => rfl
    | succ n =>
      cases rest with
      | nil => rfl
      | cons c rest =>
        rcases ends with full | stops
        · cases full
        · rw [octalRun, if_neg (stops c rfl)]
  | cons c digits ih =>
    obtain ⟨n, rfl⟩ : ∃ k, n = k + 1 := exists_eq_add_one.mpr (lt_of_lt_of_le
      (succ_pos digits.length) most)
    have later := ih (forall_mem_cons.mp all).2
      (le_of_succ_le_succ most) (ends.imp_left fun full => Nat.succ.inj full)
    rw [cons_append, octalRun, if_pos (all c mem_cons_self), later]

theorem stepAt_plain (other : c ≠ 92) (cs : List Nat) : stepAt exact (c :: cs) = .put c cs := by
  unfold stepAt
  exact if_pos other

theorem stepAt_backslash (c : Nat) (cs : List Nat) :
    stepAt exact (92 :: c :: cs) = switchStep exact c cs := by
  unfold stepAt
  exact if_neg (Decidable.not_not.mpr rfl)

theorem lookup_of_octal (octal : IsOctalDigit c) : unescapeLetters.lookup c = none := by
  obtain ⟨low, high⟩ := octal
  interval_cases c <;> rfl

theorem switchStep_octal (octal : IsOctalDigit c) (cs : List Nat) :
    switchStep exact c cs = octalStep exact c cs := by
  have most := octal.2
  unfold switchStep
  rw [lookup_of_octal octal]
  rw [if_neg (by omega), if_neg (by omega), if_neg (by omega), if_neg (by omega), if_pos octal]

theorem switchStep_other (plain : ¬BeginsSequence c) (cs : List Nat) :
    switchStep exact c cs = .put c cs := by
  simp only [BeginsSequence, not_or] at plain
  have letter : unescapeLetters.lookup c = none := not_isSome_iff_eq_none.mp plain.1
  unfold switchStep
  rw [letter]
  rw [if_neg plain.2.1, if_neg plain.2.2.1, if_neg plain.2.2.2.1, if_neg plain.2.2.2.2.1,
    if_neg plain.2.2.2.2.2]

def FixedDigits (c count : Nat) : Prop := c = 117 ∧ count = 4 ∨ c = 85 ∧ count = 8

/-- How a source may begin: each step is taken at one of these beginnings. -/
inductive Begins : List Nat → Prop
  | nothing : Begins []
  | plain {c : Nat} (cs : List Nat) (other : c ≠ 92) : Begins (c :: cs)
  | backslash : Begins [92]
  | letter {c v : Nat} (cs : List Nat) (found : unescapeLetters.lookup c = some v) :
      Begins (92 :: c :: cs)
  | cut {c : Nat} (letter : c = 99 ∨ c = 120) : Begins [92, c]
  | control (c : Nat) (cs : List Nat) : Begins (92 :: 99 :: c :: cs)
  | braced (cs : List Nat) : Begins (92 :: 120 :: 123 :: cs)
  | hex {c : Nat} (cs : List Nat) (other : c ≠ 123) : Begins (92 :: 120 :: c :: cs)
  | fixed {c count : Nat} (cs : List Nat) (letter : FixedDigits c count) : Begins (92 :: c :: cs)
  | octal {c : Nat} (cs : List Nat) (digit : IsOctalDigit c) : Begins (92 :: c :: cs)
  | other {c : Nat} (cs : List Nat) (plain : ¬BeginsSequence c) : Begins (92 :: c :: cs)

theorem begins (cs : List Nat) : Begins cs := by
  cases cs with
  | nil => exact .nothing
  | cons c cs =>
    by_cases other : c ≠ 92
    · exact .plain cs other
    obtain rfl := Decidable.not_not.mp other
    cases cs with
    | nil => exact .backslash
    | cons d cs =>
      by_cases sequence : BeginsSequence d
      · rcases sequence with letter | rfl | rfl | rfl | rfl | octal
        · obtain ⟨v, found⟩ := isSome_iff_exists.mp letter
          exact .letter cs found
        · cases cs with
          | nil => exact .cut (.inl rfl)
          | cons x cs => exact .control x cs
        · cases cs with
          | nil => exact .cut (.inr rfl)
          | cons x cs =>
            by_cases brace : x = 123
            · exact brace ▸ .braced cs
            · exact .hex cs brace
        · exact .fixed cs (.inl ⟨rfl, rfl⟩)
        · exact .fixed cs (.inr ⟨rfl, rfl⟩)
        · exact .octal cs octal
      · exact .other cs sequence

variable {c v : Nat} {digits rest : List Nat} {encoding : Encoding} {count : Nat}
  {outcome : Outcome} {step : Step}

theorem stepAt_letter (found : unescapeLetters.lookup c = some v) (cs : List Nat) :
    stepAt exact (92 :: c :: cs) = .put v cs := by
  rw [stepAt_backslash]
  unfold switchStep
  rw [found]

theorem stepAt_cut (letter : c = 99 ∨ c = 120) : stepAt exact [92, c] = atSourceEnd exact := by
  rcases letter with rfl | rfl <;> rfl

theorem stepAt_hex (other : c ≠ 123) (cs : List Nat) :
    stepAt exact (92 :: 120 :: c :: cs) = hexStep (c :: cs) :=
  if_neg other

theorem stepAt_fixed (letter : FixedDigits c count) (cs : List Nat) :
    stepAt exact (92 :: c :: cs) = fixedStep exact count cs := by
  rcases letter with ⟨rfl, rfl⟩ | ⟨rfl, rfl⟩ <;> rfl

theorem stepAt_octal (digit : IsOctalDigit c) (cs : List Nat) :
    stepAt exact (92 :: c :: cs) = octalStep exact c cs := by
  rw [stepAt_backslash, switchStep_octal exact digit]

theorem stepAt_other (plain : ¬BeginsSequence c) (cs : List Nat) :
    stepAt exact (92 :: c :: cs) = .put c cs := by
  rw [stepAt_backslash, switchStep_other exact plain]

theorem octalStep_exact (octal : IsOctalDigit c) (cs : List Nat) :
    ∃ digits rest, c :: cs = digits ++ rest ∧ (∀ d ∈ digits, IsOctalDigit d) ∧ digits ≠ [] ∧
      digits.length ≤ 3 ∧ (digits.length = 3 ∨ ∀ d ∈ rest.head?, ¬IsOctalDigit d) ∧
      octalStep true c cs = .put (strtol 8 digits) rest ∧
      octalStep false c cs = .put (strtol 8 digits)
        (if digits.length < 3 ∧ rest.length = 1 then [] else rest) := by
  obtain ⟨split, all, most, maximal⟩ := octalRun_spec 2 cs
  refine ⟨c :: (octalRun 2 cs).1, (octalRun 2 cs).2, congrArg (c :: ·) split,
    forall_mem_cons.mpr ⟨octal, all⟩, cons_ne_nil _ _, succ_le_succ most,
    maximal.imp_left fun full => congrArg (· + 1) full, ?_, ?_⟩
  · rw [octalStep, if_neg fun both => Bool.noConfusion both.1]
  rw [octalStep]
  by_cases short : (c :: (octalRun 2 cs).1).length < 3 ∧ (octalRun 2 cs).2.length = 1
  · rw [if_pos ⟨rfl, short⟩, if_pos short]
  · rw [if_neg fun both => short both.2, if_neg short]

theorem ends_or_beyond (all : ∀ c ∈ digits, IsHexDigit c)
    (most : digits.length ≤ n) (maximal : digits.length = n ∨ ∀ c ∈ rest.head?, ¬IsHexDigit c) :
    hexRun n (digits ++ rest) = some (digits, rest) ∨ hexRun n (digits ++ rest) = none := by
  by_cases full : digits.length = n
  · exact .inl (hexRun_append all most (.inl full))
  cases rest with
  | nil =>
    left
    apply hexRun_append all most
    exact .inr fun _ member => absurd member (not_mem_none _)
  | cons c rest =>
    by_cases small : c < 256
    · left
      apply hexRun_append all most
      right
      intro d member
      cases member
      exact ⟨small, (maximal.resolve_left full) c rfl⟩
    · right
      apply hexRun_eq_none_iff.mpr
      exact ⟨digits, c, rest, rfl, all, lt_of_le_of_ne most full, Nat.le_of_not_lt small⟩

theorem octalStep_append (all : ∀ d ∈ digits, IsOctalDigit d)
    (most : digits.length ≤ 2) (maximal : digits.length = 2 ∨ ∀ d ∈ rest.head?, ¬IsOctalDigit d) :
    octalStep exact c (digits ++ rest) =
      if exact = false ∧ (c :: digits).length < 3 ∧ rest.length = 1 then
        .put (strtol 8 (c :: digits)) [] else .put (strtol 8 (c :: digits)) rest := by
  rw [octalStep, octalRun_append all most maximal]

theorem bracedStep_append (all : ∀ c ∈ digits, IsHexDigit c)
    (nonempty : digits ≠ []) (most : digits.length ≤ 8) :
    bracedStep (digits ++ 125 :: rest) = .put (strtol 16 digits) rest := by
  have run : hexRun 8 (digits ++ 125 :: rest) = some (digits, 125 :: rest) := by
    apply hexRun_append all most
    right
    intro c member
    cases member
    exact ⟨by decide, by decide⟩
  rw [bracedStep, run]
  dsimp only
  rw [if_pos rfl, if_neg nonempty]

theorem fixedStep_append (all : ∀ c ∈ digits, IsHexDigit c) (full : digits.length = count) :
    fixedStep exact count (digits ++ rest) = .put (strtol 16 digits) rest := by
  rw [fixedStep, hexRun_append all full.le (Or.inl full)]
  dsimp only
  rw [if_neg fun both => absurd full (Nat.ne_of_lt both.1)]

/-- Steps store what the grammar says, inside the table of `isxdigit`. -/
theorem stepAt_of_sequence (sequence : Sequence cs v rest) :
    stepAt true cs = .put v rest ∨ stepAt true cs = .outside := by
  cases sequence with
  | plain other => exact .inl (stepAt_plain true other rest)
  | letter found => exact .inl (stepAt_letter true found rest)
  | @control c _ upper =>
    left
    rw [stepAt_backslash]
    exact if_neg (by omega)
  | @hex digits _ all nonempty most maximal =>
    obtain ⟨d, digits, rfl⟩ := exists_cons_of_ne_nil nonempty
    have hex := all d mem_cons_self
    have notBrace : d ≠ 123 := by
      rintro rfl
      exact absurd hex (by decide)
    rw [cons_append, stepAt_hex true notBrace, hexStep, ← cons_append]
    rcases ends_or_beyond all most maximal with run | run
    · rw [run]
      exact .inl rfl
    · rw [run]
      exact .inr rfl
  | braced all nonempty most => exact .inl (bracedStep_append all nonempty most)
  | short all four => exact .inl (fixedStep_append true all four)
  | long all eight => exact .inl (fixedStep_append true all eight)
  | @octal digits _ all nonempty most maximal =>
    left
    obtain ⟨d, digits, rfl⟩ := exists_cons_of_ne_nil nonempty
    rw [cons_append, stepAt_octal true (all d mem_cons_self),
      octalStep_append true (forall_mem_cons.mp all).2
        (le_of_succ_le_succ most) (maximal.imp_left Nat.succ.inj),
      if_neg fun both => Bool.noConfusion both.1]
  | other plain => exact .inl (stepAt_other true plain rest)

theorem Encoding.holds_ascii (encoding : Encoding) (small : c < 0x80) : encoding.Holds c := by
  have ascii : Encoding.ascii.Holds c := small
  cases encoding with
  | ascii => exact small
  | latin1 | binary => exact lt_trans small (by decide)
  | utf8 | utf16 => exact ascii.isCharacter
  | ucs2 => exact ⟨ascii.isCharacter, small.trans (by decide)⟩
  | ucs4 => exact ascii.isCharacter

/-- Where the code looks for hexadecimal digits, and how many there may be. -/
def digitPlaces : List (List Nat × Nat) := [([120], 2), ([120, 123], 9), ([117], 4), ([85], 8)]

/-- A sequence the end cuts short, octal digits at the end, or a wide character. -/
inductive Slip (encoding : Encoding) : List Nat → Prop
  | backslash : Slip encoding [92]
  | cut {c : Nat} (letter : c = 99 ∨ c = 120) : Slip encoding [92, c]
  | digits {c count : Nat} {digits : List Nat} (letter : FixedDigits c count)
      (all : ∀ d ∈ digits, IsHexDigit d) (few : digits.length < count)
      (holds : encoding.Holds (strtol 16 digits)) : Slip encoding (92 :: c :: digits)
  | octal {c : Nat} {digits : List Nat} (all : ∀ d ∈ digits, IsOctalDigit d) (some_ : digits ≠ [])
      (few : digits.length < 3) (other : ¬IsOctalDigit c) : Slip encoding (92 :: (digits ++ [c]))
  | beyond {lead digits rest : List Nat} {count c : Nat} (place : (lead, count) ∈ digitPlaces)
      (all : ∀ d ∈ digits, IsHexDigit d) (few : digits.length < count) (large : 256 ≤ c) :
      Slip encoding (92 :: (lead ++ (digits ++ c :: rest)))

theorem slip_of_hexRun (encoding : Encoding) {lead cs : List Nat} {count most : Nat}
    (place : (lead, most) ∈ digitPlaces) (few : count ≤ most) (run : hexRun count cs = none) :
    Slip encoding (92 :: (lead ++ cs)) := by
  obtain ⟨digits, x, rest, rfl, all, less, large⟩ := hexRun_eq_none_iff.mp run
  exact .beyond place all (less.trans_le few) large

/-- Everything that a step can do. -/
inductive Stepped (exact : Bool) : List Nat → Step → Prop
  | put {cs rest : List Nat} {v : Nat} (first : Sequence cs v rest) : Stepped exact cs (.put v rest)
  | loose {cs : List Nat} {v : Nat} (isLoose : exact = false)
      (slip : ∀ encoding : Encoding, encoding.Holds v → Slip encoding cs)
      (same : ∀ w rest, stepAt true cs = .put w rest → w = v) : Stepped exact cs (.put v [])
  | illegal {cs : List Nat} (exactly : stepAt true cs = .illegal) : Stepped exact cs .illegal
  | outside {cs : List Nat} (slip : ∀ encoding, Slip encoding cs) : Stepped exact cs .outside
  | nothing : Stepped exact [] .stop
  | backslash : Stepped exact [92] .stop

theorem hexStep_stepped (isStep : hexStep (c :: cs) = step)
    (other : c ≠ 123) : Stepped exact (92 :: 120 :: c :: cs) step := by
  have exactly := (stepAt_hex true other cs).trans isStep
  rw [hexStep] at isStep
  cases run : hexRun 2 (c :: cs) with
  | none =>
    rw [run] at isStep
    cases isStep
    exact .outside fun encoding =>
      @slip_of_hexRun encoding [120] _ _ _ (by decide) (le_refl 2) run
  | some result =>
    obtain ⟨digits, left⟩ := result
    obtain ⟨split, all, most, maximal⟩ := hexRun_spec run
    rw [run] at isStep
    cases digits with
    | nil =>
      cases isStep
      exact .illegal exactly
    | cons d digits =>
      cases isStep
      rw [split]
      exact .put (.hex all (cons_ne_nil _ _) most maximal)

theorem bracedStep_stepped (isStep : bracedStep cs = step) :
    Stepped exact (92 :: 120 :: 123 :: cs) step := by
  have exactly : stepAt true (92 :: 120 :: 123 :: cs) = step := isStep
  rw [bracedStep] at isStep
  cases run : hexRun 8 cs with
  | none =>
    rw [run] at isStep
    cases isStep
    exact .outside fun encoding =>
      @slip_of_hexRun encoding [120, 123] _ _ _ (by decide) (le_succ 8) run
  | some result =>
    obtain ⟨digits, left⟩ := result
    obtain ⟨rfl, all, most, _⟩ := hexRun_spec run
    rw [run] at isStep
    cases left with
    | nil =>
      cases isStep
      exact .illegal exactly
    | cons x left =>
      dsimp only at isStep
      split at isStep
      · next brace =>
        split at isStep
        · cases isStep
          exact .illegal exactly
        next nonempty =>
        cases isStep
        rw [brace]
        exact .put (.braced all nonempty most)
      split at isStep
      · cases isStep
        exact .illegal exactly
      next large =>
      cases isStep
      exact .outside fun encoding => @Slip.beyond _ [120, 123] _ _ _ _ (by decide) all
        (lt_succ_of_le most) (Nat.le_of_not_lt large)

theorem fixedStep_stepped (letter : FixedDigits c count) :
    Stepped exact (92 :: c :: cs) (fixedStep exact count cs) := by
  have exactly := stepAt_fixed true letter cs
  rw [fixedStep] at exactly ⊢
  cases run : hexRun count cs with
  | none =>
    have place : ([c], count) ∈ digitPlaces := by
      rcases letter with ⟨rfl, rfl⟩ | ⟨rfl, rfl⟩ <;> decide
    exact .outside fun encoding => slip_of_hexRun encoding place le_rfl run
  | some result =>
    obtain ⟨digits, left⟩ := result
    obtain ⟨rfl, all, most, _⟩ := hexRun_spec run
    rw [run] at exactly
    dsimp only at exactly ⊢
    by_cases few : digits.length < count
    · rw [if_pos ⟨few, .inl rfl⟩] at exactly
      by_cases goesOn : exact = true ∨ left ≠ []
      · rw [if_pos ⟨few, goesOn⟩]
        exact .illegal exactly
      rw [not_or, Bool.not_eq_true, not_not] at goesOn
      obtain ⟨isLoose, rfl⟩ := goesOn
      rw [if_neg (by simp [isLoose])]
      rw [append_nil] at exactly ⊢
      refine .loose isLoose (fun _ => .digits letter all few) fun w rest put => ?_
      cases exactly.symm.trans put
    have full : digits.length = count := le_antisymm most (Nat.le_of_not_lt few)
    rw [if_neg fun both => few both.1]
    rcases letter with ⟨rfl, rfl⟩ | ⟨rfl, rfl⟩
    · exact .put (.short all full)
    · exact .put (.long all full)

theorem octalStep_stepped (octal : IsOctalDigit c) :
    Stepped exact (92 :: c :: cs) (octalStep exact c cs) := by
  obtain ⟨digits, rest, split, all, nonempty, most, maximal, exactly, runs⟩ :=
    octalStep_exact octal cs
  have exactPut := (stepAt_octal true octal cs).trans exactly
  rw [split] at exactPut ⊢
  cases exact with
  | true =>
    rw [exactly]
    exact .put (.octal all nonempty most maximal)
  | false =>
    rw [runs]
    split
    · next short =>
      obtain ⟨x, rfl⟩ := length_eq_one_iff.mp short.2
      have last := (maximal.resolve_left (Nat.ne_of_lt short.1)) x rfl
      refine .loose rfl (fun _ _ => .octal all nonempty short.1 last) fun w rest put => ?_
      cases exactPut.symm.trans put
      rfl
    · exact .put (.octal all nonempty most maximal)

theorem stepped (cs : List Nat) : Stepped exact cs (stepAt exact cs) := by
  cases begins cs with
  | nothing => exact .nothing
  | plain cs other =>
    rw [stepAt_plain exact other]
    exact .put (.plain other)
  | backslash => exact .backslash
  | letter cs found =>
    rw [stepAt_letter exact found]
    exact .put (.letter found)
  | cut letter =>
    have exactly := stepAt_cut true letter
    rw [stepAt_cut exact letter]
    cases exact with
    | true => exact .illegal exactly
    | false =>
      refine .loose rfl (fun _ _ => .cut letter) fun w rest put => ?_
      cases exactly.symm.trans put
  | control c cs =>
    change Stepped exact _ (if c < 65 ∨ 90 < c then Step.illegal else .put (c - 65 + 1) cs)
    split
    · next outside => exact .illegal (if_pos outside)
    · exact .put (.control ⟨by omega, by omega⟩)
  | braced cs => exact bracedStep_stepped exact rfl
  | hex cs other =>
    rw [stepAt_hex exact other]
    exact hexStep_stepped exact rfl other
  | fixed cs letter =>
    rw [stepAt_fixed exact letter]
    exact fixedStep_stepped exact letter
  | octal cs digit =>
    rw [stepAt_octal exact digit]
    exact octalStep_stepped exact digit
  | other cs plain =>
    rw [stepAt_other exact plain]
    exact .put (.other plain)

theorem strtol_octal_lt (all : ∀ d ∈ digits, IsOctalDigit d)
    (few : digits.length < 3) : strtol 8 digits < 0x80 := by
  have value : ∀ d ∈ digits, digitOf d < 8 := by
    intro d member
    obtain ⟨low, high⟩ := all d member
    unfold digitOf
    rw [if_pos (by omega)]
    omega
  match digits with
  | [] => decide
  | [d] =>
    have first := value d mem_cons_self
    change 0 * 8 + digitOf d < _
    omega
  | [d, e] =>
    have first := value d mem_cons_self
    have second := value e (mem_cons_of_mem _ mem_cons_self)
    change (0 * 8 + digitOf d) * 8 + digitOf e < _
    omega
  | _ :: _ :: _ :: _ =>
    simp only [length_cons] at few
    omega

/-- At a slip it stops, leaves the table, or stores something else. -/
theorem stepAt_of_slip (slip : Slip encoding cs) :
    stepAt false cs = .stop ∨ stepAt false cs = .outside ∨
      ∃ v, stepAt false cs = .put v [] ∧ encoding.Holds v ∧ stepAt true cs ≠ .put v [] ∧
        stepAt true cs ≠ .outside := by
  cases slip with
  | backslash => exact .inl rfl
  | cut letter =>
    right
    right
    have holds := encoding.holds_ascii (show 92 < 0x80 by decide)
    rcases letter with rfl | rfl
    · exact ⟨92, rfl, holds, by decide, by decide⟩
    · exact ⟨92, rfl, holds, by decide, by decide⟩
  | @digits c count digits letter all few holds =>
    right
    right
    have run : hexRun count digits = some (digits, []) := by
      have whole := @hexRun_append count digits [] all few.le
        (.inr fun _ member => absurd member (not_mem_none _))
      rw [append_nil] at whole
      exact whole
    have loose : fixedStep false count digits = .put (strtol 16 digits) [] := by
      rw [fixedStep, run]
      apply if_neg
      rintro ⟨-, impossible | impossible⟩
      · cases impossible
      · exact impossible rfl
    have exactly : fixedStep true count digits = .illegal := by
      rw [fixedStep, run]
      exact if_pos ⟨few, .inl rfl⟩
    rw [stepAt_fixed false letter, stepAt_fixed true letter, loose, exactly]
    exact ⟨_, rfl, holds, Step.noConfusion, Step.noConfusion⟩
  | @octal c digits all nonempty few other =>
    right
    right
    obtain ⟨d, digits, rfl⟩ := exists_cons_of_ne_nil nonempty
    have octal := all d mem_cons_self
    have short : digits.length < 2 := lt_of_succ_lt_succ few
    have step : ∀ exact, stepAt exact (92 :: ((d :: digits) ++ [c])) =
        if exact = false ∧ (d :: digits).length < 3 ∧ [c].length = 1 then
          .put (strtol 8 (d :: digits)) [] else .put (strtol 8 (d :: digits)) [c] := by
      intro exact
      rw [cons_append, stepAt_octal exact octal]
      apply octalStep_append exact (forall_mem_cons.mp all).2 short.le
      right
      intro e member
      cases member
      exact other
    have holds := encoding.holds_ascii (strtol_octal_lt all few)
    rw [step, step, if_pos ⟨rfl, few, rfl⟩, if_neg fun both => Bool.noConfusion both.1]
    refine ⟨_, rfl, holds, ?_, Step.noConfusion⟩
    intro same
    cases same
  | @beyond lead digits rest count c place all few large =>
    right
    left
    have untold : hexRun count (digits ++ c :: rest) = none :=
      hexRun_eq_none_iff.mpr ⟨digits, c, rest, rfl, all, few, large⟩
    have fixed : fixedStep false count (digits ++ c :: rest) = .outside := by
      rw [fixedStep, untold]
    simp only [digitPlaces, mem_cons, Prod.mk.injEq, not_mem_nil, or_false] at place
    rcases place with ⟨rfl, rfl⟩ | ⟨rfl, rfl⟩ | ⟨rfl, rfl⟩ | ⟨rfl, rfl⟩
    · obtain ⟨x, tail, split, notBrace⟩ : ∃ x tail, digits ++ c :: rest = x :: tail ∧ x ≠ 123 := by
        cases digits with
        | nil => exact ⟨c, rest, rfl, by omega⟩
        | cons d digits =>
          refine ⟨d, digits ++ c :: rest, rfl, ?_⟩
          rintro rfl
          exact absurd (all 123 mem_cons_self) (by decide)
      rw [split] at untold
      change stepAt false (92 :: 120 :: (digits ++ c :: rest)) = _
      rw [split, stepAt_hex false notBrace, hexStep, untold]
    · change bracedStep (digits ++ c :: rest) = _
      by_cases full : digits.length = 8
      · have run := @hexRun_append 8 digits (c :: rest) all full.le (.inl full)
        have notBrace : c ≠ 125 := by omega
        rw [bracedStep, run]
        dsimp only
        rw [if_neg notBrace, if_neg large.not_gt]
      · have within : hexRun 8 (digits ++ c :: rest) = none :=
          hexRun_eq_none_iff.mpr ⟨digits, c, rest, rfl, all, by omega, large⟩
        rw [bracedStep, within]
    · exact fixed
    · exact fixed

/-- An exception, outside the table of `isxdigit`, or what was stored. -/
inductive Outcome where
  | threw
  | outside
  | done (vs : List Nat)

/-- A code point stored before the others. -/
def Outcome.behind (v : Nat) : Outcome → Outcome
  | threw => threw
  | outside => outside
  | done vs => done (v :: vs)

/-- How the code gets through a source. -/
inductive Produces (encoding : Encoding) : List Nat → Outcome → Prop
  | stop {cs : List Nat} (step : stepAt false cs = .stop) : Produces encoding cs (.done [])
  | illegal {cs : List Nat} (step : stepAt false cs = .illegal) : Produces encoding cs .threw
  | outside {cs : List Nat} (step : stepAt false cs = .outside) : Produces encoding cs .outside
  | refused {cs rest : List Nat} {v : Nat} (step : stepAt false cs = .put v rest)
      (refused : ¬encoding.Holds v) : Produces encoding cs .threw
  | put {cs rest : List Nat} {v : Nat} {outcome : Outcome} (step : stepAt false cs = .put v rest)
      (holds : encoding.Holds v) (later : Produces encoding rest outcome) :
      Produces encoding cs (outcome.behind v)

/-- What is wanted: an exception, or the code points that the source stands for. -/
def Outcome.Right (cs : List Nat) : Outcome → Prop
  | threw => True
  | outside => False
  | done vs => Denotes cs vs

/-- A slip is reached, behind documented sequences. -/
inductive Slips (encoding : Encoding) : List Nat → Prop
  | here {cs : List Nat} (slip : Slip encoding cs) : Slips encoding cs
  | later {cs rest : List Nat} {v : Nat} (first : Sequence cs v rest) (holds : encoding.Holds v)
      (slips : Slips encoding rest) : Slips encoding cs

theorem Produces.right
    (produces : Produces encoding cs outcome) (sound : ¬Slips encoding cs) : outcome.Right cs := by
  induction produces with
  | @stop cs step =>
    have view := stepped false cs
    rw [step] at view
    cases view with
    | nothing => exact .nil
    | backslash => exact absurd (.here .backslash) sound
  | illegal _ => trivial
  | @outside cs step =>
    have view := stepped false cs
    rw [step] at view
    cases view with
    | outside slip => exact absurd (.here (slip encoding)) sound
  | refused _ _ => trivial
  | @put cs rest v outcome step holds _ ih =>
    have view := stepped false cs
    rw [step] at view
    cases view with
    | loose _ slip _ => exact absurd (.here (slip encoding holds)) sound
    | put first =>
      have right := ih fun slips => sound (.later first holds slips)
      cases outcome with
      | threw => trivial
      | outside => exact absurd right not_false
      | done vs => exact .cons first right

theorem Produces.not_right
    (produces : Produces encoding cs outcome) (slips : Slips encoding cs) : ¬outcome.Right cs := by
  -- the first step of the code, where it is a slip
  have here : ∀ {cs : List Nat} {outcome : Outcome}, Slip encoding cs →
      Produces encoding cs outcome → ¬outcome.Right cs := by
    intro cs outcome slip produces right
    have stopped := stepAt_of_slip slip
    cases produces with
    | stop step =>
      cases right
      cases slip
    | illegal step =>
      rw [step] at stopped
      rcases stopped with impossible | impossible | ⟨_, impossible, _⟩ <;> cases impossible
    | outside step => exact right
    | @refused _ rest v step refused =>
      rw [step] at stopped
      rcases stopped with impossible | impossible | ⟨w, same, holds, _⟩
      · cases impossible
      · cases impossible
      · cases same
        exact refused holds
    | @put _ rest v outcome step holds later =>
      rw [step] at stopped
      rcases stopped with impossible | impossible | ⟨w, same, _, differs, inside⟩
      · cases impossible
      · cases impossible
      cases same
      cases later with
      | stop _ =>
        cases right with
        | @cons _ left _ _ first done =>
          cases done
          rcases stepAt_of_sequence first with agrees | outside
          · exact differs agrees
          · exact inside outside
      | illegal step => cases step
      | outside step => cases step
      | refused step _ => cases step
      | put step _ _ => cases step
  induction slips generalizing outcome with
  | here slip => exact here slip produces
  | @later cs rest v first holds slips ih =>
    rcases stepAt_of_sequence first with exactly | outside
    · by_cases agree : stepAt false cs = stepAt true cs
      · have step : stepAt false cs = .put v rest := agree.trans exactly
        intro right
        cases produces with
        | stop other | illegal other | outside other => cases step.symm.trans other
        | refused other refused =>
          cases step.symm.trans other
          exact refused holds
        | @put _ _ _ outcome other _ rest_ =>
          cases step.symm.trans other
          cases outcome with
          | threw => exact ih rest_ trivial
          | outside => exact right
          | done vs =>
            cases right with
            | @cons _ left _ _ again done =>
              rcases stepAt_of_sequence again with same | impossible
              · cases exactly.symm.trans same
                exact ih rest_ done
              · cases exactly.symm.trans impossible
      · generalize isStep : stepAt false cs = step at agree
        have view : Stepped false cs step := isStep ▸ stepped false cs
        cases view with
        | nothing => cases exactly
        | backslash => exact here .backslash produces
        | illegal fails => cases exactly.symm.trans fails
        | outside slip => exact here (slip encoding) produces
        | loose _ slip same => exact here (slip encoding (same _ _ exactly ▸ holds)) produces
        | put other =>
          rcases stepAt_of_sequence other with same | outside
          · exact absurd same.symm agree
          · cases exactly.symm.trans outside
    · have view := stepped true cs
      rw [outside] at view
      cases view with
      | outside slip => exact here (slip encoding) produces

end RakudoStar.Strings
