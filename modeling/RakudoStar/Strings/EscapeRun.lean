import RakudoStar.Strings.EscapeStep

/-!
# Reading escape sequences

The loops of `Parrot_str_unescape_string` take the steps of the code.
-/

namespace RakudoStar.Strings

open Foundation List RakudoStar.Except Option Nat

variable {order : ByteOrder} {seed : UInt64} {src : ParrotString} {cs : List Nat}
  {itersrc : StringIter}

section

variable {rest : List Nat} {c n : Nat}

/-- A character that is read ahead, and the iterator, stand before what is left of the source. -/
def Remains (order : ByteOrder) (src : ParrotString) (cs : List Nat) (pending : Option Nat)
    (itersrc : StringIter) (todo : List Nat) : Prop :=
  ∃ suffix, AtSuffix order src cs itersrc suffix ∧ todo = pending.toList ++ suffix

theorem AtSuffix.remains
    (there : AtSuffix order src cs itersrc rest) : Remains order src cs none itersrc rest :=
  ⟨rest, there, rfl⟩

theorem AtSuffix.pending (there : AtSuffix order src cs itersrc rest) (c : Nat) :
    Remains order src cs (some c) itersrc (c :: rest) :=
  ⟨rest, there, rfl⟩

/-- The result of a round of the code is a step. -/
def Performs (order : ByteOrder) (src : ParrotString) (cs : List Nat)
    (result : Except EscapeFault Round) : Step → Prop
  | .put v rest => ∃ round, result = .ok round ∧ round.next = v ∧
      Remains order src cs (if round.pending then some round.c else none) round.itersrc rest
  | .stop => False
  | .illegal => result = .error .illegalEscape
  | .outside => ∃ position, result = .error (.access (.outside position))

theorem IsHexDigit.lt (hex : IsHexDigit c) : c < 256 := by
  unfold IsHexDigit at hex
  omega

theorem isxdigit_of_lt (small : c < 256) : isxdigit c = .ok (decide (IsHexDigit c)) :=
  if_pos small

theorem isxdigit_outside (large : ¬c < 256) : isxdigit c = .error (.access (.outside c)) :=
  if_neg large

/-- The digits of `\xhh` behind those in `digbuf`. -/
def hexFrom (digbuf : List Nat) (n : Nat) (cs : List Nat) : Step :=
  match hexRun n cs with
  | none => .outside
  | some (digits, rest) =>
    if digbuf ++ digits = [] then .illegal else .put (strtol 16 (digbuf ++ digits)) rest

theorem hexFrom_cons (hex : IsHexDigit c) (digbuf : List Nat) (n : Nat) (cs : List Nat) :
    hexFrom digbuf (n + 1) (c :: cs) = hexFrom (digbuf ++ [c]) n cs := by
  rw [hexFrom, hexFrom, hexRun, if_pos hex.lt, if_pos hex]
  cases hexRun n cs with
  | none => rfl
  | some result =>
    dsimp only [map_some]
    rw [append_assoc]
    rfl

/-- The digits of `\x{h..h}` behind those in `digbuf`. -/
def bracedFrom (digbuf : List Nat) (n : Nat) (cs : List Nat) : Step :=
  match hexRun n cs with
  | none => .outside
  | some (_, []) => .illegal
  | some (digits, c :: rest) =>
    if c = 125 then
      if digbuf ++ digits = [] then .illegal else .put (strtol 16 (digbuf ++ digits)) rest
    else if c < 256 then .illegal else .outside

theorem bracedFrom_cons (hex : IsHexDigit c) (digbuf : List Nat) (n : Nat)
    (cs : List Nat) : bracedFrom digbuf (n + 1) (c :: cs) = bracedFrom (digbuf ++ [c]) n cs := by
  rw [bracedFrom, bracedFrom, hexRun, if_pos hex.lt, if_pos hex]
  cases hexRun n cs with
  | none => rfl
  | some result =>
    obtain ⟨digits, rest⟩ := result
    cases rest with
    | nil => rfl
    | cons d rest =>
      dsimp only [map_some]
      rw [append_assoc]
      rfl

theorem bracedFrom_closed (digbuf : List Nat) (n : Nat) (other : ¬IsHexDigit c)
    : bracedFrom digbuf n (c :: cs) =
      if c = 125 then if digbuf = [] then .illegal else .put (strtol 16 digbuf) cs
      else if c < 256 then .illegal else .outside := by
  cases n with
  | zero =>
    rw [bracedFrom, hexRun]
    dsimp only
    rw [append_nil]
  | succ n =>
    rw [bracedFrom, hexRun, if_neg other]
    by_cases small : c < 256
    · rw [if_pos small, if_pos small]
      dsimp only
      rw [append_nil, if_pos small]
    · have notBrace : c ≠ 125 := by omega
      rw [if_neg small, if_neg notBrace, if_neg small]

/-- The digits of `\uhhhh` and `\Uhhhhhhhh` behind those in `digbuf`. -/
def fixedFrom (digbuf : List Nat) (n : Nat) (cs : List Nat) : Step :=
  match hexRun n cs with
  | none => .outside
  | some (digits, rest) =>
    if digits.length < n ∧ rest ≠ [] then .illegal else .put (strtol 16 (digbuf ++ digits)) rest

theorem fixedFrom_cons (hex : IsHexDigit c) (digbuf : List Nat) (n : Nat)
    (cs : List Nat) : fixedFrom digbuf (n + 1) (c :: cs) = fixedFrom (digbuf ++ [c]) n cs := by
  rw [fixedFrom, fixedFrom, hexRun, if_pos hex.lt, if_pos hex]
  cases hexRun n cs with
  | none => rfl
  | some result =>
    dsimp only [map_some]
    rw [append_assoc]
    simp only [length_cons, succ_lt_succ_iff]
    rfl

variable (spells : Spells order seed src cs)

include spells

variable {c : Nat} {todo : List Nat}

theorem atEnd_nil (there : AtSuffix order src cs itersrc []) : atEnd src itersrc = true := by
  rcases there with ⟨k, inside, suffix, rfl⟩
  have last : k = cs.length := le_antisymm inside (drop_eq_nil_iff.mp suffix)
  subst last
  apply decide_eq_true
  rw [spells.bytes, ← WordCode.boundary_length]
  exact le_rfl

theorem atEnd_cons (there : AtSuffix order src cs itersrc (c :: rest)) :
    atEnd src itersrc = false := by
  rcases there with ⟨k, _, suffix, rfl⟩
  apply decide_eq_false
  have later := @WordCode.drop_boundary _ _ (codeOf order src.encoding) cs k
  rw [suffix, ← spells.bytes] at later
  have valid : src.encoding.Holds c := spells.holds c (mem_of_mem_drop (suffix ▸ mem_cons_self))
  intro beyond
  exact (codeOf order src.encoding).text_ne_nil valid (later.symm.trans (drop_eq_nil_of_le beyond))

theorem nextCharacter_eq (there : AtSuffix order src cs itersrc (c :: rest)) :
    ∃ next, nextCharacter order src itersrc = .ok (c, next) ∧ AtSuffix order src cs next rest := by
  obtain ⟨next, read, after⟩ := there.read spells
  refine ⟨next, ?_, after⟩
  rw [nextCharacter, read]
  rfl

theorem unescapeControl_performs (there : AtSuffix order src cs itersrc rest) :
    Performs order src cs (unescapeControl order src itersrc) (switchStep false 99 rest) := by
  cases rest with
  | nil =>
    rw [unescapeControl, if_pos (atEnd_nil spells there)]
    exact ⟨_, rfl, rfl, there.remains⟩
  | cons c rest =>
    obtain ⟨next, read, after⟩ := nextCharacter_eq spells there
    have running := atEnd_cons spells there
    rw [unescapeControl, running, if_neg Bool.false_ne_true, read, ok_bind]
    change Performs order src cs _ (if c < 65 ∨ 90 < c then .illegal else .put (c - 65 + 1) rest)
    dsimp only
    by_cases outside : c < 65 ∨ 90 < c
    · rw [if_pos outside, if_pos outside]
      rfl
    · rw [if_neg outside, if_neg outside]
      exact ⟨_, rfl, rfl, after.remains⟩

theorem hexLoop_performs (n : Nat) (there : AtSuffix order src cs itersrc rest)
    (digbuf : List Nat) : Performs order src cs
      (hexLoop order src n c digbuf itersrc >>= fun (digbuf, c, pending, itersrc) =>
        if digbuf = [] then .error .illegalEscape else .ok ⟨strtol 16 digbuf, c, pending, itersrc⟩)
      (hexFrom digbuf n (c :: rest)) := by
  induction n generalizing c rest itersrc digbuf with
  | zero =>
    change Performs order src cs (if digbuf = [] then _ else _)
      (if digbuf ++ [] = [] then _ else .put (strtol 16 (digbuf ++ [])) _)
    rw [append_nil]
    by_cases empty : digbuf = []
    · rw [if_pos empty, if_pos empty]
      rfl
    · rw [if_neg empty, if_neg empty]
      exact ⟨_, rfl, rfl, there.pending c⟩
  | succ n ih =>
    by_cases small : c < 256
    · rw [hexLoop, isxdigit_of_lt small, ok_bind]
      by_cases hex : IsHexDigit c
      · rw [decide_eq_true hex, hexFrom_cons hex]
        rw [if_neg (by decide)]
        cases rest with
        | nil =>
          rw [if_pos (atEnd_nil spells there), ok_bind]
          have nothing : hexRun n [] = some ([], []) := by cases n <;> rfl
          have some_ : digbuf ++ [c] ≠ [] := append_ne_nil_of_right_ne_nil _ (cons_ne_nil _ _)
          rw [hexFrom, nothing]
          dsimp only
          rw [append_nil, if_neg some_, if_neg some_]
          exact ⟨_, rfl, rfl, there.remains⟩
        | cons d rest =>
          obtain ⟨next, read, after⟩ := nextCharacter_eq spells there
          rw [atEnd_cons spells there, if_neg Bool.false_ne_true, read, ok_bind]
          exact ih after (digbuf ++ [c])
      · rw [decide_eq_false hex, if_pos (by decide), hexFrom, hexRun, if_pos small, if_neg hex]
        dsimp only
        rw [append_nil, ok_bind]
        by_cases empty : digbuf = []
        · rw [if_pos empty, if_pos empty]
          rfl
        · rw [if_neg empty, if_neg empty]
          exact ⟨_, rfl, rfl, there.pending c⟩
    · rw [hexLoop, isxdigit_outside small, hexFrom, hexRun, if_neg small]
      exact ⟨c, rfl⟩

section

variable (there : AtSuffix order src cs itersrc rest)

include there

theorem unescapeHex_performs :
    Performs order src cs (unescapeHex order src c itersrc) (hexStep (c :: rest)) := by
  have loop := hexLoop_performs spells 2 (c := c) there []
  have step : hexFrom [] 2 (c :: rest) = hexStep (c :: rest) := by
    rw [hexFrom, hexStep]
    cases hexRun 2 (c :: rest) with
    | none => rfl
    | some result =>
      obtain ⟨_ | ⟨d, digits⟩, left⟩ := result
      · rfl
      · exact if_neg (cons_ne_nil _ _)
  rw [← step]
  exact loop

/-- The last round is for what stands behind eight digits. -/
theorem bracedLoop_performs
    {digbuf : List Nat} (total : digbuf.length + n = 8) (notBrace : c ≠ 125) : Performs order src cs
      (bracedLoop order src (n + 1) c digbuf itersrc >>= fun (digbuf, c, itersrc) =>
        if c ≠ 125 then .error .illegalEscape else if digbuf = [] then .error .illegalEscape
        else .ok ⟨strtol 16 digbuf, c, false, itersrc⟩) (bracedFrom digbuf n rest) := by
  induction rest generalizing n c itersrc digbuf with
  | nil =>
    have untold : bracedFrom digbuf n [] = .illegal := by cases n <;> rfl
    rw [untold, bracedLoop, if_pos (atEnd_nil spells there), ok_bind]
    exact if_pos notBrace
  | cons d rest ih =>
    obtain ⟨next, read, after⟩ := nextCharacter_eq spells there
    rw [bracedLoop, atEnd_cons spells there, if_neg Bool.false_ne_true, read, ok_bind]
    dsimp only
    by_cases brace : d = 125
    · subst brace
      rw [if_pos rfl, ok_bind, bracedFrom_closed digbuf n (by decide), if_pos rfl]
      rw [if_neg (Decidable.not_not.mpr rfl)]
      by_cases empty : digbuf = []
      · rw [if_pos empty, if_pos empty]
        rfl
      · rw [if_neg empty, if_neg empty]
        exact ⟨_, rfl, rfl, after.remains⟩
    rw [if_neg brace]
    by_cases small : d < 256
    · rw [isxdigit_of_lt small, ok_bind]
      by_cases hex : IsHexDigit d
      · rw [decide_eq_true hex, if_neg (by decide)]
        cases n with
        | zero =>
          -- a ninth digit
          have full : digbuf.length = 8 := total
          rw [if_pos full, ok_bind]
          have ninth : bracedFrom digbuf 0 (d :: rest) = .illegal :=
            (if_neg brace).trans (if_pos small)
          rw [ninth]
          exact if_pos brace
        | succ n =>
          have fewer : digbuf.length ≠ 8 := by omega
          rw [if_neg fewer, bracedFrom_cons hex]
          apply ih after _ brace
          rw [length_append, length_singleton]
          omega
      · rw [decide_eq_false hex, if_pos (by decide), bracedFrom_closed digbuf n hex,
          if_neg brace, if_pos small]
        rfl
    · have other : ¬IsHexDigit d := fun hex => small hex.lt
      rw [isxdigit_outside small, bracedFrom_closed digbuf n other, if_neg brace, if_neg small]
      exact ⟨d, rfl⟩

theorem unescapeBraced_performs :
    Performs order src cs (unescapeBraced order src itersrc) (bracedStep rest) :=
  bracedLoop_performs spells there rfl (by decide)

end

theorem fixedLoop_performs (n : Nat) (there : AtSuffix order src cs itersrc rest)
    (digbuf : List Nat) :
    Performs order src cs (fixedLoop order src n c digbuf itersrc >>= fun (digbuf, c, itersrc) =>
      .ok ⟨strtol 16 digbuf, c, false, itersrc⟩) (fixedFrom digbuf n rest) := by
  induction n generalizing c rest itersrc digbuf with
  | zero =>
    have full : fixedFrom digbuf 0 rest = .put (strtol 16 (digbuf ++ [])) rest := by
      rw [fixedFrom, hexRun]
      apply if_neg
      rintro ⟨few, -⟩
      exact absurd few (lt_irrefl 0)
    rw [full, append_nil]
    exact ⟨_, rfl, rfl, there.remains⟩
  | succ n ih =>
    rw [fixedLoop]
    cases rest with
    | nil =>
      have all : fixedFrom digbuf (n + 1) [] = .put (strtol 16 (digbuf ++ [])) [] := by
        rw [fixedFrom, hexRun]
        apply if_neg
        rintro ⟨-, more⟩
        exact more rfl
      rw [if_pos (atEnd_nil spells there), all, append_nil]
      exact ⟨_, rfl, rfl, there.remains⟩
    | cons d rest =>
      obtain ⟨next, read, after⟩ := nextCharacter_eq spells there
      rw [atEnd_cons spells there, if_neg Bool.false_ne_true, read, ok_bind]
      dsimp only
      by_cases small : d < 256
      · rw [isxdigit_of_lt small, ok_bind]
        by_cases hex : IsHexDigit d
        · rw [decide_eq_true hex, if_neg (by decide), fixedFrom_cons hex]
          exact ih after (digbuf ++ [d])
        rw [decide_eq_false hex, if_pos (by decide), fixedFrom, hexRun, if_pos small, if_neg hex]
        dsimp only
        rw [if_pos ⟨succ_pos n, cons_ne_nil _ _⟩]
        rfl
      · rw [isxdigit_outside small, fixedFrom, hexRun, if_neg small]
        exact ⟨d, rfl⟩

theorem unescapeFixed_performs (count c : Nat) (there : AtSuffix order src cs itersrc rest) :
    Performs order src cs (unescapeFixed order src count c itersrc)
      (fixedStep false count rest) := by
  have step : fixedFrom [] count rest = fixedStep false count rest := by
    rw [fixedFrom, fixedStep]
    cases hexRun count rest with
    | none => rfl
    | some result => simp
  rw [← step]
  exact fixedLoop_performs spells count there []

section

variable (there : AtSuffix order src cs itersrc rest)

include there

/-- It has read a character more, unless at three digits or the end. -/
theorem octalLoop_reads (digbuf : List Nat) :
    ∃ text d next, octalLoop order src n c digbuf itersrc = .ok (text, d, next) ∧
      text = digbuf ++ (octalRun n rest).1 ∧ (AtSuffix order src cs next (octalRun n rest).2 ∧
          ((octalRun n rest).1.length = n ∨ (octalRun n rest).2 = []) ∨
        (octalRun n rest).1.length < n ∧
          ∃ later, AtSuffix order src cs next later ∧ (octalRun n rest).2 = d :: later) := by
  induction n generalizing c rest itersrc digbuf with
  | zero => exact ⟨_, c, itersrc, rfl, (append_nil digbuf).symm, .inl ⟨there, .inl rfl⟩⟩
  | succ n ih =>
    rw [octalLoop]
    cases rest with
    | nil =>
      rw [if_pos (atEnd_nil spells there)]
      exact ⟨_, c, itersrc, rfl, (append_nil digbuf).symm, .inl ⟨there, .inr rfl⟩⟩
    | cons d rest =>
      obtain ⟨next, read, after⟩ := nextCharacter_eq spells there
      rw [atEnd_cons spells there, if_neg Bool.false_ne_true, read, ok_bind, octalRun]
      dsimp only
      by_cases octal : IsOctalDigit d
      · obtain ⟨text, e, last, run, whole, left⟩ := ih (c := d) after (digbuf ++ [d])
        rw [if_pos octal, if_pos octal, run]
        refine ⟨text, e, last, rfl, whole.trans (append_assoc _ _ _), ?_⟩
        rcases left with ⟨here, full | empty⟩ | ⟨few, later, here, split⟩
        · exact .inl ⟨here, .inl (congrArg (· + 1) full)⟩
        · exact .inl ⟨here, .inr empty⟩
        · exact .inr ⟨succ_lt_succ few, later, here, split⟩
      · rw [if_neg octal, if_neg octal]
        exact ⟨_, d, next, rfl, (append_nil digbuf).symm, .inr ⟨succ_pos n, rest, after, rfl⟩⟩

theorem unescapeOctal_performs :
    Performs order src cs (unescapeOctal order src c itersrc) (octalStep false c rest) := by
  obtain ⟨_, d, next, run, rfl, left⟩ := octalLoop_reads spells (n := 2) (c := c) there [c]
  rw [unescapeOctal, run, ok_bind, octalStep]
  dsimp only
  rcases left with ⟨here, stops⟩ | ⟨few, later, here, split⟩
  · -- nothing is pending
    have settled :
        (!atEnd src next && decide (([c] ++ (octalRun 2 rest).1).length < 3)) = false := by
      rcases stops with full | empty
      · rw [length_append, full]
        exact Bool.and_false _
      rw [empty] at here
      rw [atEnd_nil spells here]
      rfl
    have step : ¬(false = false ∧ (c :: (octalRun 2 rest).1).length < 3 ∧
        (octalRun 2 rest).2.length = 1) := by
      rintro ⟨-, short, one⟩
      rcases stops with full | empty
      · rw [length_cons, full] at short
        exact absurd short (lt_irrefl 3)
      · rw [empty] at one
        cases one
    rw [settled, if_neg step]
    exact ⟨_, rfl, rfl, here.remains⟩
  · have short : ([c] ++ (octalRun 2 rest).1).length < 3 := succ_lt_succ few
    rw [split]
    cases later with
    | nil =>
      rw [atEnd_nil spells here, if_pos ⟨rfl, short, rfl⟩]
      exact ⟨_, rfl, rfl, here.remains⟩
    | cons e later =>
      have many : ¬(false = false ∧ (c :: (octalRun 2 rest).1).length < 3 ∧
          (d :: e :: later).length = 1) := by
        rintro ⟨-, -, one⟩
        cases one
      rw [atEnd_cons spells here, decide_eq_true short, if_neg many]
      exact ⟨_, rfl, rfl, here.pending d⟩

theorem unescapeX_performs :
    Performs order src cs (unescapeX order src itersrc) (switchStep false 120 rest) := by
  cases rest with
  | nil =>
    rw [unescapeX, if_pos (atEnd_nil spells there)]
    exact ⟨_, rfl, rfl, there.remains⟩
  | cons c rest =>
    obtain ⟨next, read, after⟩ := nextCharacter_eq spells there
    rw [unescapeX, atEnd_cons spells there, if_neg Bool.false_ne_true, read, ok_bind]
    change Performs order src cs _ (if c = 123 then bracedStep rest else hexStep (c :: rest))
    dsimp only
    by_cases brace : c = 123
    · rw [if_pos brace, if_pos brace]
      exact unescapeBraced_performs spells after
    · rw [if_neg brace, if_neg brace]
      exact unescapeHex_performs spells after

end

theorem unescapeSwitch_performs (c : Nat) (there : AtSuffix order src cs itersrc rest) :
    Performs order src cs (unescapeSwitch order src c itersrc) (switchStep false c rest) := by
  by_cases control : c = 99
  · rw [control]
    exact unescapeControl_performs spells there
  by_cases hex : c = 120
  · rw [hex]
    exact unescapeX_performs spells there
  unfold unescapeSwitch switchStep
  cases unescapeLetters.lookup c with
  | some v => exact ⟨_, rfl, rfl, there.remains⟩
  | none =>
    rw [if_neg control, if_neg control, if_neg hex, if_neg hex]
    by_cases short : c = 117
    · rw [if_pos short, if_pos short]
      exact unescapeFixed_performs spells 4 c there
    by_cases long : c = 85
    · rw [if_neg short, if_neg short, if_pos long, if_pos long]
      exact unescapeFixed_performs spells 8 c there
    rw [if_neg short, if_neg short, if_neg long, if_neg long]
    by_cases octal : IsOctalDigit c
    · rw [if_pos octal, if_pos octal]
      exact unescapeOctal_performs spells there
    · rw [if_neg octal, if_neg octal]
      exact ⟨_, rfl, rfl, there.remains⟩

theorem remains_read {pending : Option Nat}
    (remains : Remains order src cs pending itersrc (c :: todo)) :
    ¬(pending = none ∧ atEnd src itersrc = true) ∧
      ∃ next, currentCharacter order src pending itersrc = .ok (c, next) ∧
        AtSuffix order src cs next todo := by
  obtain ⟨suffix, there, split⟩ := remains
  cases pending with
  | none =>
    have whole : c :: todo = suffix := split
    rw [← whole] at there
    constructor
    · rintro ⟨-, behind⟩
      rw [atEnd_cons spells there] at behind
      cases behind
    · exact nextCharacter_eq spells there
  | some d =>
    have whole : c :: todo = d :: suffix := split
    cases whole
    constructor
    · rintro ⟨impossible, -⟩
      cases impossible
    · exact ⟨itersrc, rfl, there⟩

theorem unescapeRound_performs (c : Nat)
    (there : AtSuffix order src cs itersrc todo) : stepAt false (c :: todo) = .stop ∧ todo = [] ∧
        unescapeRound order src c itersrc = .ok none ∨ ∃ result, unescapeRound order src c itersrc =
          (result >>= fun round => .ok (some round)) ∧
        Performs order src cs result (stepAt false (c :: todo)) := by
  by_cases other : c ≠ 92
  · right
    rw [unescapeRound, if_pos other, stepAt_plain false other]
    exact ⟨.ok ⟨c, c, false, itersrc⟩, rfl, _, rfl, rfl, there.remains⟩
  have backslash : c = 92 := Decidable.not_not.mp other
  subst backslash
  rw [unescapeRound, if_neg other]
  cases todo with
  | nil =>
    left
    rw [if_pos (atEnd_nil spells there)]
    exact ⟨rfl, rfl, rfl⟩
  | cons d todo =>
    right
    obtain ⟨next, read, after⟩ := nextCharacter_eq spells there
    rw [atEnd_cons spells there, if_neg Bool.false_ne_true, read, ok_bind, stepAt_backslash]
    exact ⟨_, rfl, unescapeSwitch_performs spells d after⟩

end

theorem Sequence.shorter {rest : List Nat} {v : Nat} (sequence : Sequence cs v rest) :
    rest.length < cs.length := by
  cases sequence <;> simp only [length_cons, length_append] <;> omega

theorem stepAt_shorter {rest : List Nat} {v : Nat} (put : stepAt false cs = .put v rest) :
    rest.length < cs.length := by
  have view := stepped false cs
  rw [put] at view
  cases view with
  | put first => exact first.shorter
  | loose _ _ _ =>
    cases cs with
    | nil => cases put
    | cons c cs => exact succ_pos _

section

variable {encoding : Encoding}

theorem length_text_le (order : ByteOrder) (encoding : Encoding) (outs : List Nat) :
    ((codeOf order encoding).text outs).length ≤ encoding.maxBytesPerCodepoint * outs.length := by
  induction outs with
  | nil => exact zero_le _
  | cons v outs ih =>
    have word := length_spell_le order encoding v
    rw [WordCode.text_cons, length_append, length_cons, Nat.mul_add, Nat.mul_one, Nat.add_comm]
    exact Nat.add_le_add ih word

/-- The memory holds the text of these code points, with the iterator behind it. -/
structure Stored (order : ByteOrder) (encoding : Encoding) (outs : List Nat)
    (memory : List UInt8) (iterdest : StringIter) : Prop where
  valid : (codeOf order encoding).AllValid outs
  bytepos : iterdest.bytepos = ((codeOf order encoding).text outs).length
  charpos : iterdest.charpos = outs.length
  text : memory.take iterdest.bytepos = (codeOf order encoding).text outs

variable {iterdest : StringIter} {outs : List Nat} {memory : List UInt8} {v : Nat}

theorem Stored.spells (stored : Stored order encoding outs memory iterdest) :
    Spells order seed ⟨encoding, memory.take iterdest.bytepos, iterdest.charpos, 0⟩ outs :=
  ⟨stored.valid, stored.text, stored.charpos, .inl rfl⟩

theorem iterSetAndAdvanceOf_length {next : List UInt8} {nextdest : StringIter}
    (run : iterSetAndAdvanceOf order encoding memory iterdest v = .ok (next, nextdest)) :
    next.length = memory.length := by
  unfold iterSetAndAdvanceOf at run
  obtain ⟨word, _, run⟩ := of_bind run
  obtain ⟨written, write, run⟩ := of_bind run
  cases run
  unfold writeAt at write
  by_cases room : encoding.storePosition iterdest + word.length ≤ memory.length
  · rw [if_pos room] at write
    cases write
    simp only [length_append, length_take, length_drop]
    omega
  · rw [if_neg room] at write
    cases write

theorem Stored.put (stored : Stored order encoding outs memory iterdest) (holds : encoding.Holds v)
    (room : encoding.maxBytesPerCodepoint * (outs.length + 1) ≤ memory.length) :
    ∃ next nextdest, iterSetAndAdvanceOf order encoding memory iterdest v = .ok (next, nextdest) ∧
      Stored order encoding (outs ++ [v]) next nextdest ∧ next.length = memory.length := by
  have inside : outs.length < (outs ++ [v]).length := by
    rw [length_append]
    exact lt_succ_self _
  have last : (outs ++ [v])[outs.length] = v := getElem_concat_length rfl _
  have front : (outs ++ [v]).take outs.length = outs := take_left
  have whole : (outs ++ [v]).take (outs.length + 1) = outs ++ [v] := by
    apply take_of_length_le
    rw [length_append]
    exact le_rfl
  have used : (codeOf order encoding).boundary (outs ++ [v]) outs.length = iterdest.bytepos := by
    rw [WordCode.boundary, front, stored.bytepos]
  have position : stringIterAt order encoding (outs ++ [v]) outs.length = iterdest := by
    rw [stringIterAt, used, ← stored.charpos]
  have enough : (codeOf order encoding).boundary (outs ++ [v]) outs.length +
      encoding.maxBytesPerCodepoint ≤ memory.length := by
    have total := length_text_le order encoding outs
    rw [mul_add, mul_one] at room
    rw [used, stored.bytepos]
    omega
  have text : memory.take ((codeOf order encoding).boundary (outs ++ [v]) outs.length) =
      (codeOf order encoding).text ((outs ++ [v]).take outs.length) := by
    rw [used, front]
    exact stored.text
  have holdsLast : encoding.Holds (outs ++ [v])[outs.length] := by rwa [last]
  obtain ⟨next, run, written⟩ := iterSetAndAdvanceOf_eq inside holdsLast enough text
  rw [position, last] at run
  refine ⟨next, _, run, ⟨?_, ?_, ?_, ?_⟩, iterSetAndAdvanceOf_length run⟩
  · intro d member
    rcases mem_append.mp member with old | new
    · exact stored.valid d old
    · rw [mem_singleton.mp new]
      exact holds
  · rw [stringIterAt, WordCode.boundary, whole]
  · rw [length_append]
    rfl
  · rw [whole] at written
    exact written

/-- The way in which the loops end. -/
def Ends (order : ByteOrder) (encoding : Encoding) (outs : List Nat)
    (result : Except EscapeFault (List UInt8 × StringIter)) : Outcome → Prop
  | .threw => result = .error .illegalEscape ∨
      ∃ type message, result = .error (.access (.thrown type message))
  | .outside => ∃ position, result = .error (.access (.outside position))
  | .done vs => ∃ memory iterdest, result = .ok (memory, iterdest) ∧
      Stored order encoding (outs ++ vs) memory iterdest

theorem Ends.behind {outcome : Outcome} {result : Except EscapeFault (List UInt8 × StringIter)}
    (ends : Ends order encoding (outs ++ [v]) result outcome) :
    Ends order encoding outs result (outcome.behind v) := by
  cases outcome with
  | threw => exact ends
  | outside => exact ends
  | done vs =>
    obtain ⟨memory, iterdest, run, stored⟩ := ends
    rw [append_assoc] at stored
    exact ⟨memory, iterdest, run, stored⟩

theorem unescapeLoop_nil (spells : Spells order seed src cs) (rounds : Nat)
    (there : AtSuffix order src cs itersrc []) (memory : List UInt8) :
    unescapeLoop order src encoding rounds none itersrc memory iterdest =
      .ok (memory, iterdest) := by
  cases rounds with
  | zero => rfl
  | succ rounds => rw [unescapeLoop, if_pos ⟨rfl, atEnd_nil spells there⟩]

theorem unescapeLoop_ends (spells : Spells order seed src cs) {rounds : Nat} {pending : Option Nat}
    {todo : List Nat} (remains : Remains order src cs pending itersrc todo)
    (fuel : todo.length < rounds) (stored : Stored order encoding outs memory iterdest)
    (room : encoding.maxBytesPerCodepoint * (outs.length + todo.length) ≤ memory.length) :
    ∃ outcome, Produces encoding todo outcome ∧ Ends order encoding outs
      (unescapeLoop order src encoding rounds pending itersrc memory iterdest) outcome := by
  induction rounds generalizing pending itersrc iterdest todo outs memory with
  | zero => exact absurd fuel (not_lt_zero _)
  | succ rounds ih =>
    cases todo with
    | nil =>
      obtain ⟨suffix, there, split⟩ := remains
      obtain ⟨empty, rfl⟩ := append_eq_nil_iff.mp split.symm
      have settled : pending = none := by
        cases pending with
        | none => rfl
        | some c => cases empty
      rw [settled, unescapeLoop_nil spells _ there]
      refine ⟨.done [], .stop rfl, memory, iterdest, rfl, ?_⟩
      rw [append_nil]
      exact stored
    | cons c todo =>
      obtain ⟨running, next, read, there⟩ := remains_read spells remains
      rw [unescapeLoop, if_neg running, read, ok_bind]
      dsimp only
      rcases unescapeRound_performs spells c there with
        ⟨step, rfl, round⟩ | ⟨result, round, performs⟩
      · rw [round, ok_bind]
        rw [unescapeLoop_nil spells _ there]
        refine ⟨.done [], .stop step, memory, iterdest, rfl, ?_⟩
        rw [append_nil]
        exact stored
      rw [round]
      cases step : stepAt false (c :: todo) with
      | stop =>
        rw [step] at performs
        exact absurd performs not_false
      | illegal =>
        rw [step] at performs
        have threw : result = .error .illegalEscape := performs
        rw [threw]
        exact ⟨.threw, .illegal step, .inl rfl⟩
      | outside =>
        rw [step] at performs
        obtain ⟨position, outside⟩ := performs
        rw [outside]
        exact ⟨.outside, .outside step, position, rfl⟩
      | put v rest =>
        rw [step] at performs
        obtain ⟨found, run, rfl, left⟩ := performs
        rw [run, ok_bind, ok_bind]
        dsimp only
        have shorter := stepAt_shorter step
        by_cases holds : encoding.Holds found.next
        · have enough : encoding.maxBytesPerCodepoint * (outs.length + 1) ≤ memory.length := by
            apply le_trans (Nat.mul_le_mul_left _ _) room
            rw [length_cons]
            omega
          obtain ⟨memory, iterdest, set, stored, size⟩ := stored.put holds enough
          obtain ⟨outcome, produces, ends⟩ := ih left (by omega) stored (by
            rw [size]
            apply le_trans (Nat.mul_le_mul_left _ _) room
            rw [length_append, length_singleton]
            omega)
          rw [set]
          exact ⟨_, .put step holds produces, ends.behind⟩
        obtain ⟨type, message, thrown⟩ :=
          @iterSetAndAdvanceOf_throws order encoding found.next holds memory iterdest
        rw [thrown]
        exact ⟨.threw, .refused step holds, .inr ⟨type, message, rfl⟩⟩

/-- An illegal sequence, or a code point that the encoding does not hold. -/
def Refuses (result : Except EscapeFault ParrotString) : Prop :=
  result = .error .illegalEscape ∨ ∃ type message, result = .error (.access (.thrown type message))

/-- An outcome describes what `Parrot_str_unescape_string` returns. -/
def Outcome.Describes (order : ByteOrder) (seed : UInt64) (encoding : Encoding)
    (result : Except EscapeFault ParrotString) : Outcome → Prop
  | threw => Refuses result
  | outside => ∃ position, result = .error (.access (.outside position))
  | done vs => ∃ str, result = .ok str ∧ str.encoding = encoding ∧ Spells order seed str vs

theorem strUnescapeString_produces (spells : Spells order seed src cs) (encoding : Encoding) :
    ∃ outcome, Produces encoding cs outcome ∧
      outcome.Describes order seed encoding (strUnescapeString order src encoding) := by
  have stored : Stored order encoding []
      (replicate (encoding.maxBytesPerCodepoint * src.bytes.length) 0) .init :=
    ⟨nofun, rfl, rfl, rfl⟩
  have fuel : cs.length < src.strlen + 1 := by
    rw [spells.strlen]
    exact lt_succ_self _
  have room : encoding.maxBytesPerCodepoint * (([] : List Nat).length + cs.length) ≤
      (replicate (encoding.maxBytesPerCodepoint * src.bytes.length) (0 : UInt8)).length := by
    rw [length_replicate, length_nil, zero_add, spells.bytes]
    exact Nat.mul_le_mul_left _ (WordCode.length_le_text spells.holds)
  obtain ⟨outcome, produces, ends⟩ :=
    unescapeLoop_ends spells (atSuffix_init order src cs).remains fuel stored room
  refine ⟨outcome, produces, ?_⟩
  unfold strUnescapeString
  dsimp only
  cases outcome with
  | threw =>
    rcases ends with illegal | ⟨type, message, thrown⟩
    · rw [illegal]
      exact .inl rfl
    · rw [thrown]
      exact .inr ⟨type, message, rfl⟩
  | outside =>
    obtain ⟨position, outside⟩ := ends
    rw [outside]
    exact ⟨position, rfl⟩
  | done vs =>
    obtain ⟨memory, iterdest, run, written⟩ := ends
    rw [run, ok_bind]
    exact ⟨_, rfl, rfl, written.spells⟩

end

end RakudoStar.Strings
