import RakudoStar.Text.Succ
import RakudoStar.Foundation.Odometer
import Mathlib.Data.List.Induction
import Mathlib.Data.Prod.Lex

/-!
# Runs of range characters

`RANGEPOS` finds the last run of range characters that no point stands in front of.
-/

namespace RakudoStar.Text

open List

/-- A run of range characters as long as it can be, without a point in front of it. -/
structure FreeRun (str front run back : List Nat) : Prop where
  split : str = front ++ (run ++ back)
  nonempty : run ≠ []
  inRange : ∀ ch ∈ run, ch ∈ rangechar
  free : ∀ ch ∈ front.getLast?, ch ∉ rangechar ∧ ch ≠ 46
  ends : ∀ ch ∈ back.head?, ch ∉ rangechar

/-- The last one of these runs. -/
structure FinalRun (str front run back : List Nat) : Prop extends FreeRun str front run back where
  final : ∀ front' run' back', FreeRun str front' run' back' → front'.length ≤ front.length

variable {str front run back : List Nat} {pos : Nat}

theorem FreeRun.head_mem (free : FreeRun str front run back) :
    str.getD front.length 0 ∈ rangechar := by
  obtain ⟨first, rest, rfl⟩ := exists_cons_of_ne_nil free.nonempty
  rw [free.split]
  simpa using free.inRange first mem_cons_self

theorem FreeRun.last_free (free : FreeRun str front run back)
    (before : front.length = pos + 1) : str.getD pos 0 ∉ rangechar ∧ str.getD pos 0 ≠ 46 := by
  refine free.free _ ?_
  have inside : pos < front.length := by omega
  rw [free.split, getD_append _ _ _ _ inside, getLast?_eq_getElem?, before,
    Nat.add_sub_cancel, getD_eq_getElem _ _ inside]
  exact getElem?_eq_getElem inside

/-- What the scan knows when it has come back to a position. -/
inductive Scanned (str : List Nat) (pos : Nat) : Option Nat → Prop
  | outside (back : List Nat) (split : str = str.take pos ++ back)
      (ends : ∀ ch ∈ back.head?, ch ∉ rangechar)
      (final : ∀ front' run' back', FreeRun str front' run' back' → front'.length < pos) :
      Scanned str pos none
  | inside (run back : List Nat) (split : str = str.take pos ++ (run ++ back)) (nonempty : run ≠ [])
      (inRange : ∀ ch ∈ run, ch ∈ rangechar) (ends : ∀ ch ∈ back.head?, ch ∉ rangechar)
      (final : ∀ front' run' back', FreeRun str front' run' back' → front'.length ≤ pos) :
      Scanned str pos (some (pos + run.length - 1))

/-- What the scan returns. -/
inductive Located (str : List Nat) : Option (Nat × Nat) → Prop
  | nowhere (noRun : ∀ front run back, ¬ FreeRun str front run back) : Located str none
  | at_run {front run back : List Nat} (final : FinalRun str front run back) :
      Located str (some (front.length, front.length + run.length - 1))

theorem take_succ_getD (inside : pos < str.length) :
    str.take (pos + 1) = str.take pos ++ [str.getD pos 0] := by
  rw [take_succ_eq_append_getElem inside, getD_eq_getElem _ _ inside]

theorem rangePosFrom_located {state : Option Nat} (scanned : Scanned str pos state)
    (inside : pos ≤ str.length) : Located str (rangePosFrom str pos state) := by
  induction pos generalizing state with
  | zero =>
    cases scanned with
    | outside back split ends final =>
      exact .nowhere fun front run back free =>
        absurd (final front run back free) (Nat.not_lt_zero _)
    | inside run back split nonempty inRange ends final =>
      have run : FinalRun str [] run back := ⟨⟨split, nonempty, inRange, by simp, ends⟩, final⟩
      have located := Located.at_run run
      rwa [length_nil] at located
  | succ pos ih =>
    have step := take_succ_getD (Nat.lt_of_succ_le inside)
    have atRun : ∀ {front' run' back' : List Nat}, FreeRun str front' run' back' →
        front'.length = pos → str.getD pos 0 ∈ rangechar := by
      rintro front' run' back' free rfl
      exact free.head_mem
    cases scanned with
    | outside back split ends final =>
      rw [step, append_assoc] at split
      rw [rangePosFrom]
      split
      · next isRange =>
          refine ih (.inside [str.getD pos 0] back split (by simp)
            (by simpa using isRange) ends fun front' run' back' free => ?_) (by omega)
          have before := final front' run' back' free
          omega
      next notRange =>
        refine ih (.outside (str.getD pos 0 :: back) split
          (by simpa using notRange) fun front' run' back' free => ?_) (by omega)
        have before := final front' run' back' free
        have notHere : front'.length ≠ pos := fun here => notRange (atRun free here)
        omega
    | inside run back split nonempty inRange ends final =>
      rw [rangePosFrom]
      split
      · next isPoint =>
          rw [step, append_assoc, isPoint] at split
          refine ih (.outside (46 :: (run ++ back)) split
            (by simpa using point_notMem) fun front' run' back' free => ?_) (by omega)
          have before := final front' run' back' free
          have notHere : front'.length ≠ pos := fun here =>
            point_notMem (isPoint ▸ atRun free here)
          have notBehind : front'.length ≠ pos + 1 := fun behind =>
            (free.last_free behind).2 isPoint
          omega
      next notPoint =>
        split
        · next notRange =>
            have length : (str.take (pos + 1)).length = pos + 1 := by
              rw [length_take]
              omega
            have run : FinalRun str (str.take (pos + 1)) run back := by
              refine ⟨⟨split, nonempty, inRange, ?_, ends⟩, ?_⟩
              · rw [step]
                simpa using ⟨notRange, notPoint⟩
              · rw [length]
                exact final
            have located := Located.at_run run
            rwa [length] at located
        next isRange =>
          rw [step, append_assoc] at split
          have longer : Scanned str pos (some (pos + (str.getD pos 0 :: run).length - 1)) := by
            refine .inside (str.getD pos 0 :: run) back split (cons_ne_nil _ _)
              (forall_mem_cons.mpr ⟨not_not.mp isRange, inRange⟩) ends
              fun front' run' back' free => ?_
            have before := final front' run' back' free
            have notBehind : front'.length ≠ pos + 1 := fun behind =>
              (free.last_free behind).1 (not_not.mp isRange)
            omega
          have last : pos + (str.getD pos 0 :: run).length - 1 = pos + 1 + run.length - 1 := by
            rw [length_cons]
            omega
          rw [last] at longer
          exact ih longer (by omega)

theorem rangePos_located (str : List Nat) : Located str (rangePos str) := by
  refine rangePosFrom_located (.outside [] (by simp) (by simp) fun front run back free => ?_) le_rfl
  have nonempty := length_pos_of_ne_nil free.nonempty
  have length := congrArg length free.split
  simp only [length_append] at length
  omega

end RakudoStar.Text

namespace RakudoStar.Text

open Odometer

/-- `succ` carries from this character. -/
def Wraps (ch : Nat) : Prop := ¬ ch < nextChar ch

/-- `pred` carries from this character. -/
def WrapsBack (ch : Nat) : Prop := ¬ prevChar ch < ch

instance : DecidablePred Wraps := fun ch => inferInstanceAs (Decidable (¬ ch < nextChar ch))

variable {run run' tail : List Nat} {ch : Nat} {turn : Nat → Nat} {wraps : Nat → Prop}

theorem getD_middle (front init tail : List Nat) (ch : Nat) :
    (front ++ (init ++ ch :: tail)).getD (front.length + init.length) 0 = ch := by
  rw [List.getD_append_right _ _ _ _ (Nat.le_add_right _ _), Nat.add_sub_cancel_left,
    List.getD_append_right _ _ _ _ le_rfl, Nat.sub_self]
  rfl

theorem set_middle (front init tail : List Nat) (ch other : Nat) :
    (front ++ (init ++ ch :: tail)).set (front.length + init.length) other =
      front ++ (init ++ other :: tail) := by
  rw [List.set_append_right _ _ (Nat.le_add_right _ _), Nat.add_sub_cancel_left,
    List.set_append_right _ _ le_rfl, Nat.sub_self]
  rfl

theorem concat_append (init tail : List Nat) (ch : Nat) :
    (init ++ [ch]) ++ tail = init ++ ch :: tail := by
  rw [List.append_assoc, List.singleton_append]

theorem insertIdx_front (front tail : List Nat) (ch : Nat) :
    (front ++ tail).insertIdx front.length ch = front ++ ch :: tail := by
  induction front with
  | nil => rfl
  | cons first front ih =>
    rw [List.cons_append, List.length_cons, List.insertIdx_succ_cons, ih]
    rfl

theorem succLoop_outcome (front run tail : List Nat) : (∃ run', Turns nextChar Wraps run run' ∧
      succLoop front.length run.length (front ++ (run ++ tail)) = front ++ (run' ++ tail)) ∨
    (∀ ch ∈ run, Wraps ch) ∧ ∀ first rest, run = first :: rest →
      succLoop front.length run.length (front ++ (run ++ tail)) =
        front ++ carryOf (nextChar first) :: (run.map nextChar ++ tail) := by
  induction run using List.reverseRecOn generalizing tail with
  | nil =>
    exact .inr ⟨nofun, nofun⟩
  | append_singleton init ch ih =>
    rw [List.length_append, List.length_singleton, concat_append, succLoop]
    rw [getD_middle, set_middle]
    split
    · next grows =>
        refine .inl ⟨init ++ nextChar ch :: [].map nextChar, ?_, ?_⟩
        · exact .intro init (not_not.mpr grows) nofun
        · exact (congrArg (front ++ ·) (concat_append init tail (nextChar ch))).symm
    next wraps =>
      cases init with
      | nil =>
        refine .inr ⟨?_, ?_⟩
        · intro a member
          rwa [List.mem_singleton.mp member]
        intro first rest same
        obtain ⟨rfl, rfl⟩ := List.cons.inj same
        rw [List.length_nil, if_pos rfl, List.nil_append, insertIdx_front]
        rfl
      | cons first init =>
        rw [List.length_cons, if_neg (Nat.succ_ne_zero _)]
        rcases ih (nextChar ch :: tail) with ⟨run', turns, ran⟩ | ⟨wrap, ran⟩
        · refine .inl ⟨run' ++ [nextChar ch], turns.concat wraps, ?_⟩
          rw [concat_append]
          exact ran
        refine .inr ⟨?_, ?_⟩
        · intro a member
          rcases List.mem_append.mp member with old | new
          · exact wrap a old
          · rwa [List.mem_singleton.mp new]
        intro first' rest same
        obtain ⟨rfl, rfl⟩ := List.cons.inj same
        rw [List.map_append, List.map_singleton, concat_append]
        exact ran first init rfl

theorem predLoop_outcome (front run tail : List Nat) : (∃ run', Turns prevChar WrapsBack run run' ∧
      predLoop front.length run.length (front ++ (run ++ tail)) = some (front ++ (run' ++ tail))) ∨
    (∀ ch ∈ run, WrapsBack ch) ∧
      predLoop front.length run.length (front ++ (run ++ tail)) = none := by
  induction run using List.reverseRecOn generalizing tail with
  | nil => exact .inr ⟨nofun, rfl⟩
  | append_singleton init ch ih =>
    rw [List.length_append, List.length_singleton, concat_append, predLoop, getD_middle, set_middle]
    split
    · next shrinks =>
        refine .inl ⟨init ++ prevChar ch :: [].map prevChar, ?_, ?_⟩
        · exact .intro init (not_not.mpr shrinks) nofun
        · exact congrArg (fun run => some (front ++ run)) (concat_append init tail _).symm
    next wraps =>
      rcases ih (prevChar ch :: tail) with ⟨run', turns, ran⟩ | ⟨wrap, ran⟩
      · refine .inl ⟨run' ++ [prevChar ch], turns.concat wraps, ?_⟩
        rw [concat_append]
        exact ran
      refine .inr ⟨?_, ran⟩
      intro a member
      rcases List.mem_append.mp member with old | new
      · exact wrap a old
      · rwa [List.mem_singleton.mp new]

theorem FreeRun.run_eq (free : FreeRun str front run back) :
    run = (str.drop front.length).takeWhile fun ch => decide (ch ∈ rangechar) := by
  have noMore : back.takeWhile (fun ch => decide (ch ∈ rangechar)) = [] := by
    cases back with
    | nil => rfl
    | cons first back => exact List.takeWhile_cons_of_neg (by simpa using free.ends first rfl)
  rw [free.split, List.drop_left, List.takeWhile_append_of_pos (by simpa using free.inRange),
    noMore, List.append_nil]

section
variable (final : FinalRun str front run back)
include final

theorem FinalRun.rangePos_eq :
    rangePos str = some (front.length, front.length + run.length - 1) := by
  have located := rangePos_located str
  generalize rangePos str = place at located
  cases located with
  | nowhere noRun => exact absurd final.toFreeRun (noRun front run back)
  | @at_run front' run' back' final' =>
    have same : front'.length = front.length :=
      le_antisymm (final.final _ _ _ final'.toFreeRun) (final'.final _ _ _ final.toFreeRun)
    rw [final.run_eq, final'.run_eq, same]

theorem FinalRun.replace (nonempty : run' ≠ []) (inRange : ∀ ch ∈ run', ch ∈ rangechar) :
    FinalRun (front ++ (run' ++ back)) front run' back := by
  refine ⟨⟨rfl, nonempty, inRange, final.free, final.ends⟩, ?_⟩
  intro front' other back' free
  by_contra longer
  rcases List.append_eq_append_iff.mp free.split with ⟨between, rfl, rest⟩ | ⟨between, rfl, rest⟩
  · have between_ne : between ≠ [] := by
      rintro rfl
      rw [List.append_nil] at longer
      exact longer le_rfl
    have notRange : ∀ ch ∈ between.getLast?, ch ∉ rangechar ∧ ch ≠ 46 := by
      rw [← List.getLast?_append_of_ne_nil front between_ne]
      exact free.free
    have notRun : ¬ ∀ ch ∈ between, ch ∈ rangechar := fun all =>
      (notRange _ (List.getLast?_eq_some_getLast between_ne)).1
        (all _ (List.getLast_mem between_ne))
    rcases List.append_eq_append_iff.mp rest with ⟨behind, rfl, inBack⟩ | ⟨behind, rfl, _⟩
    · cases behind with
      | nil =>
        rw [List.append_nil] at notRun
        exact notRun inRange
      | cons first behind =>
        have moved : FreeRun str (front ++ (run ++ first :: behind)) other back' := by
          refine ⟨?_, free.nonempty, free.inRange, ?_, free.ends⟩
          · rw [final.split, inBack]
            simp
          rw [List.getLast?_append_of_ne_nil _ (by simp),
            List.getLast?_append_of_ne_nil _ (List.cons_ne_nil _ _)]
          rwa [List.getLast?_append_of_ne_nil _ (List.cons_ne_nil _ _)] at notRange
        have before := final.final _ _ _ moved
        simp only [List.length_append, List.length_cons] at before
        omega
    · exact notRun fun ch member => inRange ch (List.mem_append_left _ member)
  · rw [List.length_append] at longer
    exact longer (Nat.le_add_right _ _)

theorem FinalRun.succ_outcome :
    (∃ run', Turns nextChar Wraps run run' ∧ succ str = front ++ (run' ++ back)) ∨
    (∀ ch ∈ run, Wraps ch) ∧ ∃ first rest, run = first :: rest ∧
      succ str = front ++ carryOf (nextChar first) :: (run.map nextChar ++ back) := by
  obtain ⟨first, rest, isCons⟩ := List.exists_cons_of_ne_nil final.nonempty
  have positive := List.length_pos_of_ne_nil final.nonempty
  have count : front.length + run.length - 1 + 1 - front.length = run.length := by omega
  have ran : succ str = succLoop front.length run.length (front ++ (run ++ back)) := by
    rw [succ, final.rangePos_eq]
    dsimp only
    rw [count, ← final.split]
  rw [ran]
  rcases succLoop_outcome front run back with turned | ⟨wrap, carried⟩
  · exact .inl turned
  · exact .inr ⟨wrap, first, rest, isCons, carried first rest isCons⟩

theorem FinalRun.pred_outcome :
    (∃ run', Turns prevChar WrapsBack run run' ∧ pred str = some (front ++ (run' ++ back))) ∨
    (∀ ch ∈ run, WrapsBack ch) ∧ pred str = none := by
  have positive := List.length_pos_of_ne_nil final.nonempty
  have count : front.length + run.length - 1 + 1 - front.length = run.length := by omega
  have ran : pred str = predLoop front.length run.length (front ++ (run ++ back)) := by
    rw [pred, final.rangePos_eq]
    dsimp only
    rw [count, ← final.split]
  rw [ran]
  exact predLoop_outcome front run back

end

theorem mem_rangechar_of_turns
    (turns : Turns turn wraps run run') (inRange : ∀ ch ∈ run, ch ∈ rangechar)
    (keeps : ∀ ch ∈ rangechar, turn ch ∈ rangechar) : ∀ ch ∈ run', ch ∈ rangechar := by
  obtain ⟨high, stays, wrap⟩ := turns
  next digit low =>
  intro ch member
  rcases List.mem_append.mp member with inHigh | inLow
  · exact inRange ch (List.mem_append_left _ inHigh)
  rw [← List.map_cons] at inLow
  obtain ⟨a, isIn, rfl⟩ := List.mem_map.mp inLow
  exact keeps a (inRange a (List.mem_append_right _ isIn))

theorem FinalRun.turned (final : FinalRun str front run back) (turns : Turns turn wraps run run')
    (keeps : ∀ ch ∈ rangechar, turn ch ∈ rangechar) :
    FinalRun (front ++ (run' ++ back)) front run' back := by
  refine final.replace ?_ (mem_rangechar_of_turns turns final.inRange keeps)
  have length := turns.length_eq
  have positive := List.length_pos_of_ne_nil final.nonempty
  exact List.ne_nil_of_length_pos (by omega)

/-- A character that is another one afterwards. -/
def Changes (before after : List Nat) (ch : Nat) : Prop :=
  ∃ i : Nat, before[i]? = some ch ∧ after[i]? ≠ some ch

variable {high turned : List Nat}

theorem getElem?_turned (i : Nat) (inside : i < turned.length) :
    (front ++ ((high ++ turned) ++ back))[front.length + (high.length + i)]? = turned[i]? := by
  rw [List.getElem?_append_right (Nat.le_add_right _ _), Nat.add_sub_cancel_left, List.append_assoc,
    List.getElem?_append_right (Nat.le_add_right _ _), Nat.add_sub_cancel_left,
    List.getElem?_append_left inside]

theorem changes_of_turned (member : ch ∈ turned) (moves : turn ch ≠ ch) :
    Changes (front ++ ((high ++ turned) ++ back)) (front ++ ((high ++ turned.map turn) ++ back))
      ch := by
  obtain ⟨i, inside, rfl⟩ := List.getElem_of_mem member
  refine ⟨front.length + (high.length + i), ?_, ?_⟩
  · rw [getElem?_turned i inside, List.getElem?_eq_getElem inside]
  rw [getElem?_turned i (by rwa [List.length_map]), List.getElem?_map,
    List.getElem?_eq_getElem inside]
  exact fun same => moves (Option.some.inj same)

theorem turned_of_ne {i a b : Nat} (isA : (front ++ ((high ++ turned) ++ back))[i]? = some a)
    (isB : (front ++ ((high ++ turned.map turn) ++ back))[i]? = some b) (differ : a ≠ b) :
    a ∈ turned ∧ b = turn a := by
  have regrouped : ∀ middle : List Nat,
      front ++ ((high ++ middle) ++ back) = (front ++ high) ++ (middle ++ back) := by
    intro middle
    simp only [List.append_assoc]
  rw [regrouped] at isA isB
  by_cases inFront : i < (front ++ high).length
  · rw [List.getElem?_append_left inFront] at isA isB
    exact absurd (Option.some.inj (isA.symm.trans isB)) differ
  rw [List.getElem?_append_right (Nat.not_lt.mp inFront)] at isA isB
  by_cases inside : i - (front ++ high).length < turned.length
  · rw [List.getElem?_append_left inside] at isA
    rw [List.getElem?_append_left (by rwa [List.length_map]), List.getElem?_map, isA] at isB
    exact ⟨List.mem_of_getElem? isA, (Option.some.inj isB).symm⟩
  rw [List.getElem?_append_right (Nat.not_lt.mp inside)] at isA
  rw [List.getElem?_append_right (by rw [List.length_map]; exact Nat.not_lt.mp inside),
    List.length_map, isA] at isB
  exact absurd (Option.some.inj isB) differ

section

theorem noRun_laws (noRun : ∀ front run back, ¬ FreeRun str front run back) :
    succ str = str ∧ pred str = none := by
  have located := rangePos_located str
  rw [succ, pred]
  generalize rangePos str = place at located
  cases located with
  | nowhere _ => exact ⟨rfl, rfl⟩
  | at_run final => exact absurd final.toFreeRun (noRun _ _ _)

theorem sameRange_of_turns (final : FinalRun str front run back)
    (turns : Turns nextChar Wraps run run') {i a b : Nat} (isA : str[i]? = some a)
    (isB : (front ++ (run' ++ back))[i]? = some b) (differ : a ≠ b) (closed : ¬ Unclosed a) :
    SameRange a b := by
  rw [final.split] at isA
  have inRange := final.inRange
  obtain ⟨high, stays, wrap⟩ := turns
  obtain ⟨member, rfl⟩ := turned_of_ne isA isB differ
  exact (nextChar_spec (inRange a (List.mem_append_right _ member)) closed).1

theorem pred_of_turns (final : FinalRun str front run back) (turns : Turns nextChar Wraps run run')
    (closed : ¬ ∃ ch, Unclosed ch ∧ Changes str (front ++ (run' ++ back)) ch) :
    pred (front ++ (run' ++ back)) = some str := by
  have final' := final.turned turns fun ch => nextChar_mem
  have back : Turns prevChar WrapsBack run' run := by
    obtain ⟨high, stays, wrap⟩ := turns
    next digit low =>
    refine .back high stays wrap fun a member => ?_
    have inRange := final.inRange a (List.mem_append_right _ member)
    have inverse : prevChar (nextChar a) = a := by
      refine prevChar_nextChar inRange fun isNine => closed ⟨a, .inr isNine, ?_⟩
      rw [final.split]
      refine changes_of_turned member ?_
      rw [isNine, table_ends.2.1]
      decide
    refine ⟨inverse, ?_⟩
    rw [Wraps, WrapsBack, inverse]
  rcases final'.pred_outcome with ⟨run'', turns', ran⟩ | ⟨wrap, _⟩
  · rw [ran, turns'.unique back, ← final.split]
  · exact absurd wrap back.not_all_wrap

theorem succ_of_pred {before : List Nat} (ran : pred str = some before)
    (opened : ¬ Changes str before 0x2070) : succ before = str := by
  have located := rangePos_located str
  generalize placeEq : rangePos str = place at located
  cases located with
  | nowhere noRun =>
    rw [(noRun_laws noRun).2] at ran
    cases ran
  | @at_run front run back final =>
    rcases final.pred_outcome with ⟨run', turns, ran'⟩ | ⟨_, none⟩
    · obtain rfl : front ++ (run' ++ back) = before := Option.some.inj (ran'.symm.trans ran)
      have final' := final.turned turns fun ch => prevChar_mem
      have forth : Turns nextChar Wraps run' run := by
        obtain ⟨high, stays, wrap⟩ := turns
        next digit low =>
        refine .back high stays wrap fun a member => ?_
        have inRange := final.inRange a (List.mem_append_right _ member)
        have inverse : nextChar (prevChar a) = a := by
          refine nextChar_prevChar inRange ?_
          rintro rfl
          refine opened ?_
          rw [final.split]
          refine changes_of_turned member ?_
          rw [table_ends.2.2.2]
          decide
        refine ⟨inverse, ?_⟩
        rw [Wraps, WrapsBack, inverse]
      rcases final'.succ_outcome with ⟨run'', turns', ran''⟩ | ⟨wrap, _⟩
      · rw [ran'', turns'.unique forth, ← final.split]
      · exact absurd wrap forth.not_all_wrap
    · rw [none] at ran
      cases ran

section

variable (final : FinalRun str front run back)

include final

theorem FinalRun.grows : toLex (str.length, str) < toLex ((succ str).length, succ str) := by
  rw [Prod.Lex.toLex_lt_toLex]
  rcases final.succ_outcome with ⟨run', turns, ran⟩ | ⟨_, first, rest, _, ran⟩
  · refine .inr ⟨?_, ?_⟩
    · rw [ran, final.split]
      simp [turns.length_eq]
    have lex := turns.lex (fun a _ stays => not_not.mp stays) back
    have longer := List.Lex.append_left (· < ·) lex front
    rw [← final.split, ← ran] at longer
    exact longer
  · refine .inl ?_
    rw [ran, final.split]
    simp

theorem FinalRun.succ_final : ∃ front' run' back', FinalRun (succ str) front' run' back' := by
  rcases final.succ_outcome with ⟨run', turns, ran⟩ | ⟨_, first, rest, isCons, ran⟩
  · rw [ran]
    exact ⟨_, _, _, final.turned turns fun ch => nextChar_mem⟩
  have inRange : ∀ ch ∈ carryOf (nextChar first) :: run.map nextChar, ch ∈ rangechar := by
    rw [List.forall_mem_cons]
    refine ⟨carryOf_mem (nextChar_mem (final.inRange first ?_)), ?_⟩
    · rw [isCons]
      exact List.mem_cons_self
    intro ch member
    obtain ⟨a, inRun, rfl⟩ := List.mem_map.mp member
    exact nextChar_mem (final.inRange a inRun)
  rw [ran]
  exact ⟨_, _, _, final.replace (List.cons_ne_nil _ _) inRange⟩

theorem FinalRun.iterate_injective : Function.Injective fun n => succ^[n] str := by
  have runs : ∀ n, ∃ front run back, FinalRun (succ^[n] str) front run back := by
    intro n
    induction n with
    | zero => exact ⟨front, run, back, final⟩
    | succ n ih =>
      obtain ⟨front, run, back, final⟩ := ih
      rw [Function.iterate_succ_apply']
      exact final.succ_final
  have grows : StrictMono fun n => toLex ((succ^[n] str).length, succ^[n] str) := by
    refine strictMono_nat_of_lt_succ fun n => ?_
    obtain ⟨front, run, back, final⟩ := runs n
    rw [Function.iterate_succ_apply']
    exact final.grows
  intro m n same
  refine grows.injective ?_
  dsimp only at same ⊢
  rw [same]

end

end

/-- `succ` turns on the final run and `pred` turns it back, as long as no superscript or subscript
nine and no superscript zero changes; or `succ` puts one character in front of the run. It never
comes back to a text with a run, and leaves one without a run as it is, where `pred` fails. -/
theorem succ_pred_laws (str : List Nat) :
    ((∀ front run back, ¬ FreeRun str front run back) → succ str = str ∧ pred str = none) ∧
    (∀ front run back, FinalRun str front run back →
      ((∃ run', run'.length = run.length ∧ succ str = front ++ (run' ++ back) ∧
          ((¬ ∃ ch, Unclosed ch ∧ Changes str (succ str) ch) →
            (∀ (i a b : Nat), str[i]? = some a → (succ str)[i]? = some b → a ≠ b → SameRange a b) ∧
              pred (succ str) = some str)) ∨ ∃ first rest, run = first :: rest ∧
          succ str = front ++ carryOf (nextChar first) :: (run.map nextChar ++ back)) ∧
      Function.Injective fun n => succ^[n] str) ∧
    ∀ before, pred str = some before → ¬ Changes str before 0x2070 → succ before = str := by
  refine ⟨noRun_laws, fun front run back final => ⟨?_, final.iterate_injective⟩,
    fun before => succ_of_pred⟩
  rcases final.succ_outcome with ⟨run', turns, ran⟩ | ⟨_, carried⟩
  · refine .inl ⟨run', turns.length_eq, ran, fun closed => ⟨?_, ?_⟩⟩
    · intro i a b isA isB differ
      have stays : ¬ Unclosed a := fun unclosed => closed ⟨a, unclosed, i, isA, by
        rw [isB]
        exact fun same => differ (Option.some.inj same).symm⟩
      rw [ran] at isB
      exact sameRange_of_turns final turns isA isB differ stays
    · rw [ran] at closed ⊢
      exact pred_of_turns final turns closed
  · exact .inr carried

/-- `'-'.succ` is `'-'`, where `pred` fails. -/
theorem succ_dash : ¬ ((succ (codes "-")).length = (codes "-").length →
      pred (succ (codes "-")) = some (codes "-")) ∧
    ¬ Function.Injective fun n => succ^[n] (codes "-") := by
  have same : succ (codes "-") = codes "-" := by decide +kernel
  have fails : pred (codes "-") = none := by decide +kernel
  refine ⟨?_, ?_⟩
  · rw [same, fails]
    exact fun back => by cases back rfl
  intro injective
  have zeroOne : (0 : Nat) = 1 := injective same.symm
  cases zeroOne

end RakudoStar.Text
