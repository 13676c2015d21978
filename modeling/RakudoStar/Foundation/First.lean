import RakudoStar.Foundation.Except
import Mathlib.Data.List.Infix

/-!
# First positions

The first position of an interval at which something holds, or the end, and the search that
tests one position after the other.
-/

namespace RakudoStar.Foundation

open List Nat

/-- The position is the first one from `low` on before `high` that the predicate holds at, or
`high`. -/
structure IsFirst (holds : Nat → Prop) (low high position : Nat) : Prop where
  atLeast : low ≤ position
  atMost : position ≤ high
  here : position < high → holds position
  before : ∀ p, low ≤ p → p < position → ¬holds p

namespace IsFirst

variable {holds other : Nat → Prop} {low high position second : Nat}

theorem at_end (inOrder : low ≤ high) (none : ∀ p, low ≤ p → p < high → ¬holds p) :
    IsFirst holds low high high :=
  ⟨inOrder, le_rfl, fun impossible => absurd impossible (lt_irrefl high), none⟩

theorem at_start (inside : low < high) (here : holds low) : IsFirst holds low high low :=
  ⟨le_rfl, inside.le, fun _ => here, fun _ atLeast below => absurd below atLeast.not_gt⟩

theorem of_succ (fails : ¬holds low) (first : IsFirst holds (low + 1) high position) :
    IsFirst holds low high position where
  atLeast := le_of_succ_le first.atLeast
  atMost := first.atMost
  here := first.here
  before p atLeast below := by
    rcases lt_or_eq_of_le atLeast with later | rfl
    · exact first.before p later below
    · exact fails

theorem unique (first : IsFirst holds low high position) (last : IsFirst holds low high second) :
    position = second := by
  rcases lt_trichotomy position second with below | same | above
  · exact absurd (first.here (below.trans_le last.atMost))
      (last.before position first.atLeast below)
  · exact same
  · exact absurd (last.here (above.trans_le first.atMost)) (first.before second last.atLeast above)

theorem congr (same : ∀ p, low ≤ p → p < high → (holds p ↔ other p))
    (first : IsFirst holds low high position) : IsFirst other low high position where
  atLeast := first.atLeast
  atMost := first.atMost
  here below := (same position first.atLeast below).mp (first.here below)
  before p atLeast below holds :=
    first.before p atLeast below ((same p atLeast (below.trans_le first.atMost)).mpr holds)

theorem iff_agree (first : IsFirst holds low high position) : IsFirst other low high position ↔
      ∀ p, low ≤ p → p < high → (∀ q, low ≤ q → q < p → ¬other q) → (holds p ↔ other p) := by
  constructor
  · intro same p atLeast below earlier
    constructor
    · intro here
      rcases lt_trichotomy position p with before | rfl | after
      · exact absurd (same.here (before.trans below)) (earlier position same.atLeast before)
      · exact same.here below
      · exact absurd here (first.before p atLeast after)
    intro here
    rcases lt_trichotomy position p with before | rfl | after
    · exact absurd (same.here (before.trans below)) (earlier position same.atLeast before)
    · exact first.here below
    · exact absurd here (same.before p atLeast after)
  intro agree
  have before : ∀ p, low ≤ p → p < position → ¬other p := by
    intro p
    induction p using Nat.strongRecOn with
    | ind p ih =>
      intro atLeast below
      have inside := below.trans_le first.atMost
      have same := agree p atLeast inside fun q from_ beneath =>
        ih q beneath from_ (beneath.trans below)
      exact same.not.mp (first.before p atLeast below)
  exact ⟨first.atLeast, first.atMost,
    fun below => (agree position first.atLeast below before).mp (first.here below), before⟩

end IsFirst

section

variable {ε : Type} {test : Nat → Except ε Bool} {stop gap low position : Nat}

/-- Tests `gap` positions one after the other. -/
def firstFrom (test : Nat → Except ε Bool) (stop : Nat) : Nat → Nat → Except ε Nat
  | 0, _ => .ok stop
  | gap + 1, position => do
    let found ← test position
    if found then .ok position else firstFrom test stop gap (position + 1)

theorem firstFrom_congr {other : Nat → Except ε Bool}
    (same : ∀ p, low ≤ p → p < low + gap → test p = other p) :
    firstFrom test stop gap low = firstFrom other stop gap low := by
  induction gap generalizing low with
  | zero => rfl
  | succ gap ih =>
    have later : firstFrom test stop gap (low + 1) = firstFrom other stop gap (low + 1) := by
      apply ih
      intro p atLeast below
      rw [Nat.add_right_comm] at below
      exact same p (le_of_succ_le atLeast) below
    rw [firstFrom, firstFrom, same low le_rfl (Nat.lt_add_of_pos_right gap.succ_pos), later]

theorem firstFrom_never (never : ∀ p, low ≤ p → p < low + gap → test p = .ok false) :
    firstFrom test stop gap low = .ok stop := by
  induction gap generalizing low with
  | zero => rfl
  | succ gap ih =>
    rw [firstFrom, never low le_rfl (Nat.lt_add_of_pos_right gap.succ_pos),
      Except.ok_bind, if_neg Bool.false_ne_true]
    apply ih
    intro p atLeast below
    rw [Nat.add_right_comm] at below
    exact never p (le_of_succ_le atLeast) below

/-- A search that ends has found the first position. -/
theorem isFirst_of_firstFrom (whole : low + gap = stop)
    (run : firstFrom test stop gap low = .ok position) :
    IsFirst (fun p => test p = .ok true) low stop position := by
  induction gap generalizing low with
  | zero =>
    rw [firstFrom] at run
    obtain rfl := Except.ok.inj run
    exact IsFirst.at_end (le_of_eq whole) fun p atLeast below =>
      absurd below (not_lt.mpr (whole ▸ atLeast))
  | succ gap ih =>
    rw [firstFrom] at run
    obtain ⟨found, tested, rest⟩ := Except.of_bind run
    cases found with
    | true =>
      obtain rfl := Except.ok.inj rest
      exact IsFirst.at_start (whole ▸ Nat.lt_add_of_pos_right gap.succ_pos) tested
    | false =>
      apply IsFirst.of_succ
      · rw [tested]
        exact fun impossible => Bool.noConfusion (Except.ok.inj impossible)
      · exact ih (by rw [← whole, Nat.add_right_comm]; rfl) rest

/-- A search ends when the test answers, wherever it has not answered yes before. -/
theorem firstFrom_ends_iff (whole : low + gap = stop) : (∃ r, firstFrom test stop gap low = .ok r) ↔
      ∀ p, low ≤ p → p < stop → (∀ q, low ≤ q → q < p → test q ≠ .ok true) →
        ∃ answer, test p = .ok answer := by
  induction gap generalizing low with
  | zero =>
    constructor
    · intro _ p atLeast below
      exact absurd below (not_lt.mpr (whole ▸ atLeast))
    · intro _
      exact ⟨stop, rfl⟩
  | succ gap ih =>
    have next : low + 1 + gap = stop := by rw [← whole, Nat.add_right_comm]; rfl
    have inside : low < stop := whole ▸ Nat.lt_add_of_pos_right gap.succ_pos
    rw [firstFrom]
    cases tested : test low with
    | error fault =>
      constructor
      · rintro ⟨r, impossible⟩
        cases impossible
      intro answers
      obtain ⟨answer, answered⟩ := answers low le_rfl inside
        fun q atLeast below => absurd below atLeast.not_gt
      rw [tested] at answered
      cases answered
    | ok found =>
      rw [Except.ok_bind]
      cases found with
      | true =>
        rw [if_pos rfl]
        constructor
        · intro _ p atLeast _ earlier
          rcases lt_or_eq_of_le atLeast with later | rfl
          · exact absurd tested (earlier low le_rfl later)
          · exact ⟨true, tested⟩
        · intro _
          exact ⟨low, rfl⟩
      | false =>
        rw [if_neg Bool.false_ne_true, ih next]
        have here : test low ≠ .ok true := by
          rw [tested]
          exact fun impossible => Bool.noConfusion (Except.ok.inj impossible)
        constructor
        · intro answers p atLeast below earlier
          rcases lt_or_eq_of_le atLeast with later | rfl
          · exact answers p later below fun q from_ beneath =>
              earlier q (le_of_succ_le from_) beneath
          · exact ⟨false, tested⟩
        intro answers p atLeast below earlier
        apply answers p (le_of_succ_le atLeast) below
        intro q from_ beneath
        rcases lt_or_eq_of_le from_ with later | rfl
        · exact earlier q later beneath
        · exact here

theorem IsFirst.exists {holds : Nat → Prop} [DecidablePred holds] {low high : Nat}
    (inOrder : low ≤ high) : ∃ p, IsFirst holds low high p := by
  have whole : low + (high - low) = high := Nat.add_sub_cancel' inOrder
  obtain ⟨p, run⟩ := (@firstFrom_ends_iff Unit (fun p => .ok (decide (holds p))) _ _ _ whole).mpr
    fun p _ _ _ => ⟨decide (holds p), rfl⟩
  refine ⟨p, (isFirst_of_firstFrom whole run).congr fun q _ _ => ?_⟩
  constructor
  · intro answer
    exact of_decide_eq_true (Except.ok.inj answer)
  · intro here
    exact congrArg Except.ok (decide_eq_true here)

end

variable {α : Type} (text : List α) (length low : Nat) (places : List Nat)

/-- The needle stands at the position. -/
def Occurs (needle text : List α) (position : Nat) : Prop := needle <+: text.drop position

instance [DecidableEq α] (needle text : List α) (position : Nat) :
    Decidable (Occurs needle text position) :=
  inferInstanceAs (Decidable (needle <+: text.drop position))

namespace Occurs

variable {needle text : List α} {position : Nat}

theorem fits (occurs : Occurs needle text position) (nonempty : needle ≠ []) :
    position + needle.length ≤ text.length := by
  have length := occurs.length_le
  have positive := length_pos_of_ne_nil nonempty
  rw [length_drop] at length
  omega

theorem head {first : α} {rest : List α} (occurs : Occurs (first :: rest) text position) :
    text[position]? = some first := by
  obtain ⟨after, same⟩ := occurs
  have found : (text.drop position)[0]? = some first := by rw [← same]; rfl
  rwa [getElem?_drop, Nat.add_zero] at found

theorem append_iff {beyond : List α} (fits : position + needle.length ≤ text.length) :
    Occurs needle (text ++ beyond) position ↔ Occurs needle text position := by
  have inside : position ≤ text.length := le_of_add_right_le fits
  unfold Occurs
  rw [drop_append_of_le_length inside]
  constructor
  · intro occurs
    have room : needle.length ≤ (text.drop position).length := by
      rw [length_drop]
      omega
    exact prefix_of_prefix_length_le occurs (prefix_append _ _) room
  · intro occurs
    exact occurs.trans (prefix_append _ _)

end Occurs

/-- The first position from `low` on, or `-1`. -/
inductive FirstOrNone (holds : Nat → Prop) (low : Nat) : Int → Prop where
  | found (position : Nat) (atLeast : low ≤ position) (here : holds position)
      (before : ∀ p, low ≤ p → p < position → ¬holds p) : FirstOrNone holds low position
  | none (nowhere : ∀ p, low ≤ p → ¬holds p) : FirstOrNone holds low (-1)

/-- The last position up to `high`, or `-1`. -/
inductive LastOrNone (holds : Nat → Prop) (high : Nat) : Int → Prop where
  | found (position : Nat) (atMost : position ≤ high) (here : holds position)
      (after : ∀ p, position < p → p ≤ high → ¬holds p) : LastOrNone holds high position
  | none (nowhere : ∀ p, p ≤ high → ¬holds p) : LastOrNone holds high (-1)

namespace FirstOrNone

variable {holds other : Nat → Prop} {low : Nat} {result second : Int}

theorem unique (first : FirstOrNone holds low result) (again : FirstOrNone holds low second) :
    result = second := by
  cases first with
  | found position atLeast here before =>
    cases again with
    | found position' atLeast' here' before' =>
      rcases lt_trichotomy position position' with below | same | above
      · exact absurd here (before' position atLeast below)
      · exact congrArg _ same
      · exact absurd here' (before position' atLeast' above)
    | none nowhere => exact absurd here (nowhere position atLeast)
  | none nowhere =>
    cases again with
    | found position atLeast here _ => exact absurd here (nowhere position atLeast)
    | none _ => rfl

end FirstOrNone

namespace LastOrNone

variable {holds other : Nat → Prop} {high bound : Nat} {result second : Int}

theorem at_end (here : holds high) : LastOrNone holds high high :=
  .found high le_rfl here fun _ above atMost =>
    absurd above atMost.not_gt

theorem of_succ (fails : ¬holds (high + 1)) (last : LastOrNone holds high result) :
    LastOrNone holds (high + 1) result := by
  cases last with
  | found position atMost here after =>
    apply LastOrNone.found position (le_succ_of_le atMost) here
    intro p above upTo
    rcases lt_or_eq_of_le upTo with below | rfl
    · exact after p above (le_of_lt_succ below)
    · exact fails
  | none nowhere =>
    apply LastOrNone.none
    intro p upTo
    rcases lt_or_eq_of_le upTo with below | rfl
    · exact nowhere p (le_of_lt_succ below)
    · exact fails

theorem congr (same : ∀ p, p ≤ high → (holds p ↔ other p)) (last : LastOrNone holds high result) :
    LastOrNone other high result := by
  cases last with
  | found position atMost here after =>
    exact LastOrNone.found position atMost ((same position atMost).mp here)
      fun p above upTo there => after p above upTo ((same p upTo).mpr there)
  | none nowhere =>
    exact LastOrNone.none fun p upTo there => nowhere p upTo ((same p upTo).mpr there)

theorem of_le (last : LastOrNone holds bound result) (within : bound ≤ high)
    (fails : ∀ p, bound < p → p ≤ high → ¬holds p) : LastOrNone holds high result := by
  cases last with
  | found position atMost here after =>
    apply LastOrNone.found position (atMost.trans within) here
    intro p above upTo
    by_cases inside : p ≤ bound
    · exact after p above inside
    · exact fails p (Nat.lt_of_not_le inside) upTo
  | none nowhere =>
    apply LastOrNone.none
    intro p upTo
    by_cases inside : p ≤ bound
    · exact nowhere p inside
    · exact fails p (Nat.lt_of_not_le inside) upTo

theorem lower_iff (last : LastOrNone holds high result) (within : bound ≤ high) :
    LastOrNone holds bound result ↔ ∀ p, bound < p → p ≤ high → ¬holds p := by
  constructor
  · intro lower p above upTo there
    cases last with
    | found position atMost here after =>
      have behind : p ≤ position := not_lt.mp fun beyond => after p beyond upTo there
      generalize same : (position : Int) = r at lower
      cases lower with
      | found position' atMost' _ _ => omega
      | none _ => omega
    | none nowhere => exact nowhere p upTo there
  intro nothing
  cases last with
  | found position atMost here after =>
    have below : position ≤ bound := not_lt.mp fun beyond =>
      nothing position beyond atMost here
    exact LastOrNone.found position below here fun p above upTo =>
      after p above (upTo.trans within)
  | none nowhere => exact LastOrNone.none fun p upTo => nowhere p (upTo.trans within)

theorem unique (last : LastOrNone holds high result) (again : LastOrNone holds high second) :
    result = second := by
  cases last with
  | found position atMost here after =>
    cases again with
    | found position' atMost' here' after' =>
      rcases lt_trichotomy position position' with below | same | above
      · exact absurd here' (after position' below atMost')
      · exact congrArg _ same
      · exact absurd here (after' position above atMost)
    | none nowhere => exact absurd here (nowhere position atMost)
  | none nowhere =>
    cases again with
    | found position atMost here _ => exact absurd here (nowhere position atMost)
    | none _ => rfl

end LastOrNone

/-- The places of the needle from `low` on, each the first one behind the one before. -/
inductive Leftmost (needle text : List α) : Nat → List Nat → Prop
  | none {low : Nat} (nowhere : ∀ p, low ≤ p → ¬Occurs needle text p) : Leftmost needle text low []
  | next {low p : Nat} {places : List Nat} (atLeast : low ≤ p) (here : Occurs needle text p)
      (before : ∀ q, low ≤ q → q < p → ¬Occurs needle text q)
      (later : Leftmost needle text (p + needle.length) places) :
      Leftmost needle text low (p :: places)

/-- What lies between the places of a needle. -/
def partsBetween (text : List α) (length : Nat) : Nat → List Nat → List (List α)
  | low, [] => [text.drop low]
  | low, p :: places =>
    (text.drop low).take (p - low) :: partsBetween text length (p + length) places

theorem length_partsBetween : (partsBetween text length low places).length = places.length + 1 := by
  induction places generalizing low with
  | nil => rfl
  | cons p places ih =>
    rw [partsBetween, length_cons, ih, length_cons]

theorem partsBetween_ne_nil : partsBetween text length low places ≠ [] := by
  intro none
  have count := length_partsBetween text length low places
  rw [none] at count
  cases count

theorem Occurs.of_part {needle text : List α} {low stop q : Nat}
    (occurs : Occurs needle ((text.drop low).take stop) q) : Occurs needle text (low + q) := by
  rw [Occurs, drop_take, drop_drop] at occurs
  exact occurs.trans (List.take_prefix _ _)

namespace Leftmost

variable {needle text : List α} {low : Nat} {places others : List Nat}

section
variable (leftmost : Leftmost needle text low places)
include leftmost

theorem unique (again : Leftmost needle text low others) : places = others := by
  induction leftmost generalizing others with
  | none nowhere =>
    cases again with
    | none _ => rfl
    | next atLeast here _ _ => exact absurd here (nowhere _ atLeast)
  | @next low p places atLeast here before _ ih =>
    cases again with
    | none nowhere => exact absurd here (nowhere p atLeast)
    | @next _ q others atLeast' here' before' later' =>
      have same : p = q := by
        rcases lt_trichotomy p q with below | same | above
        · exact absurd here (before' p atLeast below)
        · exact same
        · exact absurd here' (before q atLeast' above)
      subst same
      rw [ih later']

theorem intercalate_partsBetween :
    needle.intercalate (partsBetween text needle.length low places) = text.drop low := by
  induction leftmost with
  | none _ => rw [partsBetween, intercalate_singleton]
  | @next low p places atLeast here _ _ ih =>
    obtain ⟨behind, split⟩ := here
    have rest : text.drop (p + needle.length) = behind := by
      rw [← drop_drop, ← split, drop_left]
    have front : (text.drop low).drop (p - low) = text.drop p := by
      rw [drop_drop, Nat.add_sub_cancel' atLeast]
    rw [partsBetween, intercalate_cons_of_ne_nil (partsBetween_ne_nil _ _ _ _),
      ih, rest, append_assoc, split, ← front, take_append_drop]

theorem partsBetween_without (nonempty : needle ≠ []) {part : List α}
    (member : part ∈ partsBetween text needle.length low places) (q : Nat) :
    ¬Occurs needle part q := by
  induction leftmost with
  | @none low nowhere =>
    rw [partsBetween, mem_singleton] at member
    rw [member, Occurs, drop_drop]
    exact nowhere (low + q) (Nat.le_add_right _ _)
  | @next low p places _ _ before _ ih =>
    rcases mem_cons.mp member with rfl | later
    · intro occurs
      have fits := occurs.fits nonempty
      have positive := length_pos_of_ne_nil nonempty
      have inside : low + q < p := by
        rw [length_take] at fits
        omega
      exact before (low + q) (Nat.le_add_right _ _) inside occurs.of_part
    · exact ih later

end

end Leftmost

theorem intercalate_cons_eq (needle part : List α) (parts : List (List α)) :
    needle.intercalate (part :: parts) = part ++ parts.flatMap (needle ++ ·) := by
  induction parts generalizing part with
  | nil => rw [intercalate_singleton, flatMap_nil, append_nil]
  | cons second parts ih =>
    rw [intercalate_cons_cons, ih, flatMap_cons, append_assoc, append_assoc]

theorem length_intercalate_take_lt {needle : List α} {parts : List (List α)} {count : Nat}
    (positive : 0 < count) (fewer : count < parts.length)
    (longer : needle ≠ [] ∨ ∀ part ∈ parts, part ≠ []) :
    (needle.intercalate (parts.take count)).length < (needle.intercalate parts).length := by
  induction parts generalizing count with
  | nil => exact absurd fewer (not_lt_zero _)
  | cons part parts ih =>
    obtain ⟨count, rfl⟩ : ∃ k, count = k + 1 := exists_eq_add_one.mpr positive
    have others : 0 < parts.length := (zero_le _).trans_lt (lt_of_succ_lt_succ fewer)
    have more : parts ≠ [] := ne_nil_of_length_pos others
    rw [take_succ_cons, intercalate_cons_of_ne_nil more]
    cases count with
    | zero =>
      rw [take_zero, intercalate_singleton, length_append, length_append]
      rcases longer with nonempty | each
      · have between := length_pos_of_ne_nil nonempty
        omega
      obtain ⟨second, rest, rfl⟩ := exists_cons_of_ne_nil more
      have visible := length_pos_of_ne_nil (each second (mem_cons_of_mem _ mem_cons_self))
      have begins : second.length ≤ (needle.intercalate (second :: rest)).length := by
        cases rest with
        | nil => rw [intercalate_singleton]
        | cons third rest =>
          rw [intercalate_cons_cons, length_append, length_append]
          omega
      omega
    | succ count =>
      have taken : parts.take (count + 1) ≠ [] := by
        apply ne_nil_of_length_pos
        rw [length_take]
        omega
      have shorter := @ih (count + 1) (succ_pos count)
        (lt_of_succ_lt_succ fewer)
        (longer.imp_right fun each part member => each part (mem_cons_of_mem _ member))
      rw [intercalate_cons_of_ne_nil taken]
      simp only [length_append]
      omega

end RakudoStar.Foundation
