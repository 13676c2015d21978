import RakudoStar.Lazy.Reifying
import Mathlib.Logic.Relation

/-!
# Requests to a lazy list

A list holds a sequence, reified or not. A round of `gimme` keeps it, and every request answers
as on the sequence itself.
-/

namespace RakudoStar.Lazy

open List

variable {V I : Type} {iters : Iterators V I}

variable (iters) in
/-- What the iterator of a list stands for. An `LoL` does not look into its elements. -/
inductive Remains : LazyList V I → List (Item V I) → Prop
  | finished {list} : list.nextiter = none → Remains list []
  | lol {list rest} : list.nextiter = some rest → list.isLoL = true →
      Remains list (rest.map .container)
  | rest {list rest out} : list.nextiter = some rest → list.isLoL = false →
      Flattens iters list.flattens rest out → Remains list out

variable (iters) in
def LazyList.Holds (list : LazyList V I) (seq : List (Item V I)) : Prop :=
  ∃ remaining, Remains iters list remaining ∧ seq = list.items ++ remaining

variable (iters) in
/-- A list whose iterator begins with an infinite one. -/
def LazyList.Endless (list : LazyList V I) : Prop :=
  ∃ rest, list.nextiter = some rest ∧ StartsInfinite iters rest

variable {list : LazyList V I} {seq : List (Item V I)}

theorem LazyList.Holds.length_le (holds : list.Holds iters seq) :
    list.items.length ≤ seq.length := by
  rcases holds with ⟨remaining, _, rfl⟩
  rw [length_append]
  exact Nat.le_add_right _ _

theorem LazyList.Holds.all_reified (holds : list.Holds iters seq) (ended : list.nextiter = none) :
    seq = list.items := by
  rcases holds with ⟨remaining, remains, rfl⟩
  cases remains with
  | finished _ => exact append_nil _
  | lol next _ | rest next _ _ => cases next.symm.trans ended

variable (iters) in
/-- The sequence stays, and as many elements as were asked for are reified. -/
structure Advances (list : LazyList V I) (seq : List (Item V I)) (ask : Ask)
    (after : LazyList V I) : Prop where
  holds : after.Holds iters seq
  grows : list.items.length ≤ after.items.length
  enough : after.nextiter = none ∨ list.items.length + ask.size ≤ after.items.length ∨
    (ask = .whatever ∧ after.Endless iters)

theorem nextIter_nil : nextIter ([] : List (Item V I)) = none := if_pos rfl

theorem nextIter_cons (x : Item V I) (rest : List (Item V I)) :
    nextIter (x :: rest) = some (x :: rest) := if_neg (cons_ne_nil x rest)

theorem LazyList.reifyInto_holds {delivered later remaining : List (Item V I)}
    (isList : list.isLoL = false) (stands : Flattens iters list.flattens later remaining) :
    (list.reifyInto delivered later).Holds iters (list.items ++ (delivered ++ remaining)) := by
  have items : (list.reifyInto delivered later).items = list.items ++ delivered := by
    rw [reifyInto, isList]
    rfl
  refine ⟨remaining, ?_, by rw [items, append_assoc]⟩
  cases later with
  | nil =>
    cases stands
    exact .finished nextIter_nil
  | cons x later => exact .rest (nextIter_cons x later) isList stands

variable {rest : List (Item V I)} {ask : Ask}

theorem gimmeRound_advances (next : list.nextiter = some rest)
    (holds : list.Holds iters seq) (ask : Ask) :
    ∃ after, Advances iters list seq (roundAsk list ask) after ∧
      ∃ bound, ∀ fuel, bound ≤ fuel → gimmeRound iters fuel list rest ask = .ok after := by
  rcases holds with ⟨remaining, remains, rfl⟩
  cases remains with
  | finished ended => cases next.symm.trans ended
  | @lol rest' next' isLoL =>
    cases next.symm.trans next'
    have items : (list.reifyInto rest []).items = list.items ++ rest.map .container := by
      rw [LazyList.reifyInto, isLoL]
      rfl
    refine ⟨list.reifyInto rest [], ⟨⟨[], .finished nextIter_nil, ?_⟩, ?_, .inl nextIter_nil⟩, 1,
      fun fuel large => ?_⟩
    · rw [items, append_nil]
    · rw [items, length_append]
      exact Nat.le_add_right _ _
    rcases Nat.exists_eq_add_of_le' large with ⟨fuel, rfl⟩
    rw [gimmeRound, isLoL]
    have moved : reify iters list.flattens true (fuel + 1) rest (roundAsk list ask) =
        .ok (rest, []) := by
      cases ask with
      | whatever | count n => exact reifyLoop_done (.inl rfl) fuel
    rw [moved]
    rfl
  | @rest rest' out next' isList isFlat =>
    cases next.symm.trans next'
    rcases reify_delivers isFlat (roundAsk list ask) with
      ⟨delivered, later, remaining, ⟨bound, runs⟩, rfl, stands, stopped⟩
    have items : (list.reifyInto delivered later).items = list.items ++ delivered := by
      rw [LazyList.reifyInto, isList]
      rfl
    refine ⟨list.reifyInto delivered later,
      ⟨LazyList.reifyInto_holds isList stands, ?_, ?_⟩, bound, fun fuel large => ?_⟩
    · rw [items, length_append]
      exact Nat.le_add_right _ _
    · rcases stopped with rfl | enough | ⟨eager, infinite⟩
      · exact .inl nextIter_nil
      · rw [items, length_append]
        exact .inr (.inl (by omega))
      · refine .inr (.inr ⟨eager, later, ?_, infinite⟩)
        rcases infinite with ⟨i, tail, rfl, _⟩
        exact nextIter_cons _ _
    · rw [gimmeRound, isList, runs fuel large]
      rfl

theorem gimme_finished (ended : list.nextiter = none) (ask : Ask) (fuel : Nat) :
    gimme iters ask (fuel + 1) list = .ok list := by
  rw [gimme, ended]

theorem gimme_enough (next : list.nextiter = some rest)
    (enough : wantsMore iters list rest ask = .ok false) (fuel : Nat) :
    gimme iters ask (fuel + 1) list = .ok list := by
  rw [gimme, next]
  dsimp only
  rw [enough]
  rfl

theorem gimme_round {after : LazyList V I}
    (next : list.nextiter = some rest) (more : wantsMore iters list rest ask = .ok true)
    {fuel : Nat} (round : gimmeRound iters fuel list rest ask = .ok after) :
    gimme iters ask (fuel + 1) list = gimme iters ask fuel after := by
  rw [gimme, next]
  dsimp only
  rw [more]
  dsimp only [Except.ok_bind]
  rw [if_pos rfl, round]
  rfl

/-- `gimme` with a number reifies so many elements, if there are so many. -/
theorem gimme_count (holds : list.Holds iters seq) (n : Int) :
    ∃ after, after.Holds iters seq ∧ (n ≤ after.items.length ∨ seq = after.items) ∧
      ∃ bound, ∀ fuel, bound ≤ fuel → gimme iters (.count n) fuel list = .ok after := by
  cases next : list.nextiter with
  | none =>
    refine ⟨list, holds, .inr (holds.all_reified next), 1, fun fuel large => ?_⟩
    rcases Nat.exists_eq_add_of_le' large with ⟨fuel, rfl⟩
    exact gimme_finished next _ fuel
  | some rest =>
    by_cases enough : n ≤ list.items.length
    · refine ⟨list, holds, .inl enough, 1, fun fuel large => ?_⟩
      rcases Nat.exists_eq_add_of_le' large with ⟨fuel, rfl⟩
      refine gimme_enough next ?_ fuel
      rw [wantsMore, decide_eq_false (Int.not_lt.mpr enough)]
    have more : wantsMore iters list rest (.count n) = .ok true := by
      rw [wantsMore, decide_eq_true (Int.not_le.mp enough)]
    rcases gimmeRound_advances next holds (.count n) with ⟨after, advances, bound, rounds⟩
    -- after one round there are enough elements, or there is no iterator
    have ends : ∀ fuel, gimme iters (.count n) (fuel + 1) after = .ok after := by
      intro fuel
      cases later : after.nextiter with
      | none => exact gimme_finished later _ fuel
      | some _ =>
        refine gimme_enough later ?_ fuel
        rcases advances.enough with ended | reached | ⟨eager, _⟩
        · cases later.symm.trans ended
        · rw [roundAsk, Ask.size] at reached
          rw [wantsMore, decide_eq_false (by omega)]
        · cases eager
    refine ⟨after, advances.holds, ?_, bound + 2, fun fuel large => ?_⟩
    · rcases advances.enough with ended | reached | ⟨eager, _⟩
      · exact .inr (advances.holds.all_reified ended)
      · rw [roundAsk, Ask.size] at reached
        exact .inl (by omega)
      · cases eager
    · rcases Nat.exists_eq_add_of_le' large with ⟨extra, rfl⟩
      rw [← Nat.add_assoc, gimme_round next more (rounds (extra + bound + 1) (by omega))]
      exact ends (extra + bound)

variable (iters) in
/-- A round of `gimme` with a star. -/
def Round (list after : LazyList V I) : Prop :=
  ∃ fuel rest, list.nextiter = some rest ∧ gimmeRound iters fuel list rest .whatever = .ok after

/-- The iterator does not begin with a type object whose `infinite` looks up an attribute. -/
def LazyList.BeginsSafely (list : LazyList V I) : Prop :=
  ∀ tail, list.nextiter ≠ some (.typeObject (.iterable true) :: tail)

variable (iters) in
/-- Before each round the iterator begins safely. -/
def LazyList.EagerSafe (list : LazyList V I) : Prop :=
  ∀ later, Relation.ReflTransGen (Round iters) list later → later.BeginsSafely

variable (iters) in
theorem restInfinite_ok (next : list.nextiter = some rest)
    (safe : list.BeginsSafely) : (restInfinite iters rest = .ok true ∧ StartsInfinite iters rest) ∨
      restInfinite iters rest = .ok false := by
  unfold restInfinite
  split
  · next i tail =>
      cases infinite : iters.infinite i with
      | true => exact .inl ⟨rfl, i, tail, rfl, infinite⟩
      | false => exact .inr rfl
  · exact absurd next (safe _)
  · exact .inr rfl

theorem LazyList.Endless.stops (endless : list.Endless iters) (fuel : Nat) :
    gimme iters .whatever (fuel + 1) list = .ok list := by
  rcases endless with ⟨rest, next, i, tail, rfl, infinite⟩
  refine gimme_enough next ?_ fuel
  rw [wantsMore, restInfinite, infinite]
  rfl

theorem gimme_whatever (holds : list.Holds iters seq) (safe : list.EagerSafe iters) :
    ∃ after, after.Holds iters seq ∧ (seq = after.items ∨ after.Endless iters) ∧
      ∃ bound, ∀ fuel, bound ≤ fuel → gimme iters .whatever fuel list = .ok after := by
  induction missing : seq.length - list.items.length using Nat.strongRecOn generalizing list with
  | ind missing ih =>
  cases next : list.nextiter with
  | none =>
    refine ⟨list, holds, .inl (holds.all_reified next), 1, fun fuel large => ?_⟩
    rcases Nat.exists_eq_add_of_le' large with ⟨fuel, rfl⟩
    exact gimme_finished next _ fuel
  | some rest =>
    rcases restInfinite_ok iters next (safe list .refl) with
      ⟨_, starts⟩ | notInfinite
    · have endless : list.Endless iters := ⟨rest, next, starts⟩
      refine ⟨list, holds, .inr endless, 1, fun fuel large => ?_⟩
      rcases Nat.exists_eq_add_of_le' large with ⟨fuel, rfl⟩
      exact endless.stops fuel
    have more : wantsMore iters list rest .whatever = .ok true := by
      rw [wantsMore, notInfinite]
      rfl
    rcases gimmeRound_advances next holds .whatever with ⟨after, advances, bound, rounds⟩
    have isRound : Round iters list after := ⟨bound, rest, next, rounds bound (Nat.le_refl _)⟩
    have goesOn : ∃ last, last.Holds iters seq ∧ (seq = last.items ∨ last.Endless iters) ∧
        ∃ bound, ∀ fuel, bound ≤ fuel → gimme iters .whatever fuel after = .ok last := by
      rcases advances.enough with ended | reached | ⟨_, endless⟩
      · refine ⟨after, advances.holds, .inl (advances.holds.all_reified ended), 1,
          fun fuel large => ?_⟩
        rcases Nat.exists_eq_add_of_le' large with ⟨fuel, rfl⟩
        exact gimme_finished ended _ fuel
      · have later := advances.holds.length_le
        rw [roundAsk, Ask.size] at reached
        exact ih _ (by omega) advances.holds (fun last reach => safe last (reach.head isRound)) rfl
      · refine ⟨after, advances.holds, .inr endless, 1, fun fuel large => ?_⟩
        rcases Nat.exists_eq_add_of_le' large with ⟨fuel, rfl⟩
        exact endless.stops fuel
    rcases goesOn with ⟨last, lastHolds, stopped, lastBound, runs⟩
    refine ⟨last, lastHolds, stopped, max bound lastBound + 1, fun fuel large => ?_⟩
    rcases Nat.exists_eq_add_of_le' large with ⟨extra, rfl⟩
    have enough : max bound lastBound ≤ extra + max bound lastBound := Nat.le_add_left _ _
    rw [← Nat.add_assoc, gimme_round next more
      (rounds _ (Nat.le_trans (Nat.le_max_left _ _) enough))]
    exact runs _ (Nat.le_trans (Nat.le_max_right _ _) enough)

end RakudoStar.Lazy

namespace RakudoStar.Lazy

variable {iters : Iterators V I}

variable (iters) in
/-- The answer to a request, and the sequence afterwards. -/
inductive Answers (after : LazyList V I) :
    List (Item V I) → Request → Reply V I → List (Item V I) → Prop
  | counted {seq n} {k : Nat} : min n seq.length ≤ (k : Int) → k ≤ seq.length →
      Answers after seq (.gimme (.count n)) (.count k) seq
  | all {seq} : Answers after seq (.gimme .whatever) (.count seq.length) seq
  | untilInfinite {seq k} : k ≤ seq.length → after.Endless iters →
      Answers after seq (.gimme .whatever) (.count k) seq
  | shifted {x seq} : Answers after (x :: seq) .shift (.element x) seq
  | empty : Answers after [] .shift .nothing []
  | munched {n taken seq} : min n (taken ++ seq).length ≤ (taken.length : Int) →
      Answers after (taken ++ seq) (.munch n) (.parcel taken) seq
  | found {pos x seq} : seq[pos]? = some x → Answers after seq (.atPos pos) (.element x) seq
  | missing {pos seq} : seq[pos]? = none → Answers after seq (.atPos pos) .nothing seq

/-- The elements that a reply takes out of the list. -/
def Reply.taken : Request → Reply V I → List (Item V I)
  | .shift, .element x => [x]
  | .munch _, .parcel storage => storage
  | _, _ => []

variable {list : LazyList V I}

variable (iters) in
/-- A request has been answered, and the list holds what is left. -/
def Served (list : LazyList V I) (seq : List (Item V I)) (request : Request) : Prop :=
  ∃ reply after later, Answers iters after seq request reply later ∧ after.Holds iters later ∧
    ∃ bound, ∀ fuel, bound ≤ fuel → serve iters fuel list request = .ok (reply, after)

theorem served_gimme (holds : list.Holds iters seq) (ask : Ask)
    (safe : ask = .whatever → list.EagerSafe iters) : Served iters list seq (.gimme ask) := by
  cases ask with
  | whatever =>
    rcases gimme_whatever holds (safe rfl) with ⟨after, still, stopped, bound, runs⟩
    refine ⟨.count after.items.length, after, seq, ?_, still, bound, fun fuel large => ?_⟩
    · rcases stopped with complete | endless
      · rw [← complete]
        exact .all
      · exact .untilInfinite still.length_le endless
    · rw [serve, runs fuel large]
      rfl
  | count n =>
    rcases gimme_count holds n with ⟨after, still, enough, bound, runs⟩
    refine ⟨.count after.items.length, after, seq, .counted ?_ still.length_le, still, bound,
      fun fuel large => ?_⟩
    · rcases enough with reached | complete
      · exact Int.le_trans (Int.min_le_left _ _) reached
      · exact Int.le_trans (Int.min_le_right _ _) (Int.le_of_eq (by rw [complete]))
    · rw [serve, runs fuel large]
      rfl

theorem LazyList.Holds.take_out {taken items : List (Item V I)} (holds : list.Holds iters seq)
    (split : list.items = taken ++ items) :
    ∃ later, seq = taken ++ later ∧ ({ list with items } : LazyList V I).Holds iters later := by
  rcases holds with ⟨remaining, remains, rfl⟩
  refine ⟨items ++ remaining, by rw [split, List.append_assoc], remaining, ?_, rfl⟩
  cases remains with
  | finished ended => exact .finished ended
  | lol next isLoL => exact .lol next isLoL
  | rest next isList isFlat => exact .rest next isList isFlat

section
variable (holds : list.Holds iters seq)
include holds

theorem shiftItem_answers (reified : 1 ≤ (list.items.length : Int) ∨ seq = list.items) :
    ∃ later, Answers iters (shiftItem list).2 seq .shift (shiftItem list).1 later ∧
      (shiftItem list).2.Holds iters later := by
  rw [shiftItem]
  cases items : list.items with
  | nil =>
    rw [items] at reified
    obtain rfl : seq = [] := reified.resolve_left (Int.not_le.mpr Int.zero_lt_one)
    exact ⟨[], .empty, holds⟩
  | cons x rest =>
    have split : list.items = [x] ++ rest := items
    rcases holds.take_out split with ⟨later, rfl, still⟩
    exact ⟨later, .shifted, still⟩

theorem served_shift : Served iters list seq .shift := by
  by_cases reified : 0 < list.items.length
  · rcases shiftItem_answers holds (.inl (by omega)) with ⟨later, answers, still⟩
    refine ⟨_, _, later, answers, still, 0, fun fuel _ => ?_⟩
    rw [serve, if_pos reified]
    rfl
  rcases gimme_count holds 1 with ⟨after, afterHolds, enough, bound, runs⟩
  rcases shiftItem_answers afterHolds enough with ⟨later, answers, still⟩
  refine ⟨_, _, later, answers, still, bound, fun fuel large => ?_⟩
  rw [serve, if_neg reified, runs fuel large]
  rfl

theorem served_munch (n : Int) : Served iters list seq (.munch n) := by
  by_cases more : list.items.length < max n 0
  · rcases gimme_count holds (max n 0) with ⟨after, afterHolds, enough, bound, runs⟩
    have split : after.items = after.items ++ [] := (List.append_nil _).symm
    rcases afterHolds.take_out split with ⟨later, rfl, still⟩
    refine ⟨.parcel after.items, { after with items := [] }, later, .munched ?_, still, bound,
      fun fuel large => ?_⟩
    · rcases enough with reached | complete
      · omega
      · rw [complete]
        exact Int.min_le_right _ _
    · rw [serve, if_pos more, runs fuel large]
      rfl
  rcases holds.take_out (List.take_append_drop n.toNat list.items).symm with ⟨later, rfl, still⟩
  refine ⟨.parcel (list.items.take n.toNat), { list with items := list.items.drop n.toNat },
    later, .munched ?_, still, 0, fun fuel _ => ?_⟩
  · rw [List.length_append, List.length_take]
    omega
  · have same : (max n 0).toNat = n.toNat := by omega
    rw [serve, if_neg more, same]

theorem served_atPos (pos : Nat) : Served iters list seq (.atPos pos) := by
  rcases gimme_count holds (pos + 1) with ⟨after, still, enough, bound, runs⟩
  have same : after.items[pos]? = seq[pos]? := by
    rcases still with ⟨remaining, _, rfl⟩
    rcases enough with reached | complete
    · exact (List.getElem?_append_left (by omega)).symm
    · rw [complete]
  cases found : after.items[pos]? with
  | some x =>
    refine ⟨.element x, after, seq, .found (same.symm.trans found), still, bound,
      fun fuel large => ?_⟩
    rw [serve, runs fuel large]
    dsimp only [Except.ok_bind]
    rw [found]
  | none =>
    refine ⟨.nothing, after, seq, .missing (same.symm.trans found), still, bound,
      fun fuel large => ?_⟩
    rw [serve, runs fuel large]
    dsimp only [Except.ok_bind]
    rw [found]

end

variable {requests : List Request}

theorem served (holds : list.Holds iters seq) (request : Request)
    (safe : request = .gimme .whatever → list.EagerSafe iters) : Served iters list seq request := by
  cases request with
  | gimme ask => exact served_gimme holds ask fun star => safe (star ▸ rfl)
  | shift => exact served_shift holds
  | munch n => exact served_munch holds n
  | atPos pos => exact served_atPos holds pos

end RakudoStar.Lazy
