import RakudoStar.Lazy.ListIter

/-!
# What reify delivers

The loop of `reify` moves a prefix of the flattened list, up to the number asked for, the end or
an infinite iterator, and leaves a rest that stands for what comes after.
-/

namespace RakudoStar.Lazy

open List

variable {V I : Type} {iters : Iterators V I} {flattens eager : Bool} {count : Int}

variable (iters) in
/-- A rest whose first element is an infinite iterator. -/
def StartsInfinite (rest : List (Item V I)) : Prop :=
  ∃ i tail, rest = .iterable i :: tail ∧ iters.infinite i = true

variable (iters flattens eager count) in
/-- What the loop has done, when it has moved `delivered` out of what was to come. -/
structure Delivers (rpa rest out delivered later remaining : List (Item V I)) : Prop where
  result : ∃ bound, ∀ fuel, bound ≤ fuel →
    reifyLoop iters flattens eager count fuel rpa rest = .ok (rpa ++ delivered, later)
  inOrder : out = delivered ++ remaining
  stands : Flattens iters flattens later remaining
  stopped : later = [] ∨ count ≤ (rpa ++ delivered).length ∨
    (eager = true ∧ StartsInfinite iters later)

theorem reifyLoop_done {rpa rest : List (Item V I)} (stop : rest = [] ∨ count ≤ rpa.length)
    (fuel : Nat) : reifyLoop iters flattens eager count (fuel + 1) rpa rest = .ok (rpa, rest) := by
  rw [reifyLoop, if_pos stop]

/-- A pass that moves as many elements as were asked for, or all there are. -/
theorem reifyLoop_enough {rpa rest : List (Item V I)} (short : ¬ (rest = [] ∨ count ≤ rpa.length))
    (enough : rest.drop (nextIndex flattens rest count.toNat) = [] ∨
      count ≤ (rpa ++ rest.take (nextIndex flattens rest count.toNat)).length) (fuel : Nat) :
    reifyLoop iters flattens eager count (fuel + 2) rpa rest =
      .ok (rpa ++ rest.take (nextIndex flattens rest count.toNat),
        rest.drop (nextIndex flattens rest count.toNat)) := by
  rw [reifyLoop, if_neg short]
  dsimp only
  cases after : rest.drop (nextIndex flattens rest count.toNat) with
  | nil => exact reifyLoop_done (.inl rfl) fuel
  | cons x tail =>
    have reached := enough.resolve_left (after ▸ cons_ne_nil x tail)
    dsimp only
    rw [if_pos reached]
    exact reifyLoop_done (.inr reached) fuel

theorem reifyLoop_item {front rest : List (Item V I)} {x : Item V I}
    (plain : ∀ y ∈ front, y.stops flattens = false) (stops : x.stops flattens = true)
    {rpa : List (Item V I)} (short : (rpa ++ front).length < count)
    {next : Option (List (Item V I) × List (Item V I))}
    (item : reifyItem iters eager (count - (rpa ++ front).length) rest x = .ok next)
    (fuel : Nat) : reifyLoop iters flattens eager count (fuel + 1) rpa (front ++ x :: rest) =
      next.elim (.ok (rpa ++ front, x :: rest)) fun moved =>
        reifyLoop iters flattens eager count fuel ((rpa ++ front) ++ moved.1) moved.2 := by
  have split : (rpa ++ front).length = rpa.length + front.length := length_append
  have notDone : ¬ (front ++ x :: rest = [] ∨ count ≤ rpa.length) := by
    rintro (none | enough)
    · exact append_ne_nil_of_right_ne_nil _ (cons_ne_nil x rest) none
    · omega
  have index : nextIndex flattens (front ++ x :: rest) count.toNat = front.length := by
    have heads : ∀ y ∈ (x :: rest).head?, y.stops flattens = true := by
      rintro y ⟨⟩
      exact stops
    rw [nextIndex_append plain heads]
    omega
  rw [reifyLoop, if_neg notDone]
  dsimp only
  rw [index, take_left, drop_left]
  dsimp only
  rw [if_neg (Int.not_le.mpr short), item]
  cases next with
  | none | some => rfl

theorem delivers_front {rpa front tail tailOut : List (Item V I)}
    (plain : ∀ y ∈ front, y.stops flattens = false)
    (tailStops : ∀ y ∈ tail.head?, y.stops flattens = true)
    (later : Flattens iters flattens tail tailOut)
    (enough : tail = [] ∨ count ≤ (rpa ++ front).length) :
    ∃ delivered rest remaining, Delivers iters flattens eager count rpa (front ++ tail)
      (front ++ tailOut) delivered rest remaining := by
  by_cases done : front ++ tail = [] ∨ count ≤ rpa.length
  · refine ⟨[], front ++ tail, front ++ tailOut, ?_, rfl, .append_plain plain later, ?_⟩
    · refine ⟨1, fun fuel large => ?_⟩
      rcases Nat.exists_eq_add_of_le' large with ⟨fuel, rfl⟩
      rw [append_nil]
      exact reifyLoop_done done fuel
    · rw [append_nil]
      exact done.imp id .inl
  have index := nextIndex_append plain tailStops count.toNat
  have inFront : nextIndex flattens (front ++ tail) count.toNat ≤ front.length :=
    index ▸ Nat.min_le_right _ _
  have moved : (front ++ tail).take (nextIndex flattens (front ++ tail) count.toNat) = _ :=
    take_append_of_le_length inFront
  have left : (front ++ tail).drop (nextIndex flattens (front ++ tail) count.toNat) = _ :=
    drop_append_of_le_length inFront
  have stop : (front ++ tail).drop (nextIndex flattens (front ++ tail) count.toNat) = [] ∨
      count ≤ (rpa ++ (front ++ tail).take
        (nextIndex flattens (front ++ tail) count.toNat)).length := by
    rw [moved, left, index]
    by_cases window : count.toNat ≤ front.length
    · right
      rw [length_append, length_take]
      omega
    · rw [Nat.min_eq_right (Nat.le_of_not_le window), take_length, drop_length]
      exact enough
  have run : ∀ fuel, reifyLoop iters flattens eager count (fuel + 2) rpa (front ++ tail) = _ :=
    reifyLoop_enough done stop
  rw [moved, left] at run stop
  generalize nextIndex flattens (front ++ tail) count.toNat = index at run stop
  have plainLater : ∀ y ∈ front.drop index, y.stops flattens = false :=
    fun y mem => plain y (mem_of_mem_drop mem)
  refine ⟨front.take index, front.drop index ++ tail, front.drop index ++ tailOut, ?_, ?_,
    .append_plain plainLater later, stop.imp id .inl⟩
  · refine ⟨2, fun fuel large => ?_⟩
    rcases Nat.exists_eq_add_of_le' large with ⟨fuel, rfl⟩
    exact run fuel
  · rw [← append_assoc, take_append_drop]

variable {front rest out moved : List (Item V I)}

section

variable (plain : ∀ y ∈ front, y.stops flattens = false)

include plain

theorem Delivers.after_item {x : Item V I} (stops : x.stops flattens = true)
    {rpa : List (Item V I)} (short : (rpa ++ front).length < count)
    {next delivered later remaining : List (Item V I)}
    (item : reifyItem iters eager (count - (rpa ++ front).length) rest x = .ok (some (moved, next)))
    (delivers : Delivers iters flattens eager count (rpa ++ front ++ moved) next out delivered
      later remaining) :
    Delivers iters flattens eager count rpa (front ++ x :: rest) (front ++ (moved ++ out))
      (front ++ (moved ++ delivered)) later remaining := by
  have regroup : rpa ++ (front ++ (moved ++ delivered)) = rpa ++ front ++ moved ++ delivered := by
    simp only [append_assoc]
  refine ⟨?_, ?_, delivers.stands, ?_⟩
  · rcases delivers.result with ⟨bound, runs⟩
    refine ⟨bound + 1, fun fuel large => ?_⟩
    rcases Nat.exists_eq_add_of_le' large with ⟨extra, rfl⟩
    rw [regroup, ← Nat.add_assoc, reifyLoop_item plain stops short item]
    exact runs (extra + bound) (Nat.le_add_left bound extra)
  · rw [delivers.inOrder]
    simp only [append_assoc]
  · rw [regroup]
    exact delivers.stopped

theorem delivers_item {x : Item V I} (stops : x.stops flattens = true)
    (stands : Flattens iters flattens (x :: rest) (moved ++ out)) {next : Int → List (Item V I)}
    (item : ∀ wanted, 0 < wanted → reifyItem iters eager wanted rest x =
      .ok (some (moved, next wanted)))
    (goesOn : ∀ wanted, 0 < wanted → ∀ rpa, ∃ delivered later remaining,
      Delivers iters flattens eager count rpa (next wanted) out delivered later remaining)
    (rpa : List (Item V I)) :
    ∃ delivered later remaining, Delivers iters flattens eager count rpa (front ++ x :: rest)
      (front ++ (moved ++ out)) delivered later remaining := by
  by_cases enough : count ≤ (rpa ++ front).length
  · refine delivers_front plain ?_ stands (.inr enough)
    rintro y ⟨⟩
    exact stops
  have short := Int.not_le.mp enough
  have wanted : 0 < count - (rpa ++ front).length := Int.sub_pos_of_lt short
  rcases goesOn _ wanted (rpa ++ front ++ moved) with ⟨delivered, later, remaining, delivers⟩
  exact ⟨_, later, remaining, delivers.after_item plain stops short (item _ wanted)⟩

theorem delivers_infinite {tailOut : List (Item V I)} {i : I}
    (stands : Flattens iters flattens (.iterable i :: rest) tailOut)
    (isInfinite : eager = true ∧ iters.infinite i = true) (rpa : List (Item V I)) :
    ∃ delivered later remaining, Delivers iters flattens eager count rpa
      (front ++ .iterable i :: rest) (front ++ tailOut) delivered later remaining := by
  by_cases enough : count ≤ (rpa ++ front).length
  · refine delivers_front plain ?_ stands (.inr enough)
    rintro y ⟨⟩
    rfl
  have short := Int.not_le.mp enough
  have item : reifyItem iters eager (count - (rpa ++ front).length) rest (.iterable i) =
      .ok none := by
    rw [reifyItem, if_pos isInfinite]
  refine ⟨front, .iterable i :: rest, tailOut, ?_, rfl, stands,
    .inr (.inr ⟨isInfinite.1, i, rest, rfl, isInfinite.2⟩)⟩
  refine ⟨1, fun fuel large => ?_⟩
  rcases Nat.exists_eq_add_of_le' large with ⟨fuel, rfl⟩
  exact reifyLoop_item plain rfl short item fuel

end

/-- The loop delivers a prefix of the flattened list, whatever the number that is asked
for. -/
theorem Stretches.delivers (stretches : Stretches iters flattens rest out) (rpa : List (Item V I)) :
    ∃ delivered later remaining,
      Delivers iters flattens eager count rpa rest out delivered later remaining := by
  induction stretches generalizing rpa with
  | @last front plain =>
    have ends : ∃ delivered rest remaining, Delivers iters flattens eager count rpa
        (front ++ []) (front ++ []) delivered rest remaining :=
      delivers_front plain (fun y impossible => by cases impossible) .nil (.inl rfl)
    rw [append_nil] at ends
    exact ends
  | @typeObject front type rest out plain stops notNil later ih =>
    have stands : Flattens iters flattens (.typeObject type :: rest) ([.typeObject type] ++ out) :=
      (Stretches.typeObject (fun _ none => absurd none not_mem_nil) stops notNil later).isFlat
    refine delivers_item plain stops stands (fun wanted positive => ?_) (fun _ _ => ih) rpa
    cases type with
    | nil => exact absurd rfl notNil
    | iterable | parcel | other => rfl
  | @nothing front rest out plain later ih =>
    have stands : Flattens iters flattens (.typeObject .nil :: rest) ([] ++ out) :=
      .nothing later.isFlat
    exact delivers_item plain rfl stands (fun _ _ => rfl) (fun _ _ => ih) rpa
  | @parcel front storage rest out plain isFlat later ih =>
    have stops : Item.stops flattens (.parcel storage : Item V I) = true :=
      (Bool.and_true flattens).trans isFlat
    have stands : Flattens iters flattens (.parcel storage :: rest) ([] ++ out) :=
      .parcel isFlat later.isFlat
    exact delivers_item plain stops stands (fun _ _ => rfl) (fun _ _ => ih) rpa
  | @iterable front i rest out plain later ih =>
    have stands : Flattens iters flattens (.iterable i :: rest) ([] ++ out) :=
      .iterable fun ask wants => (later ask wants).isFlat
    by_cases isInfinite : eager = true ∧ iters.infinite i = true
    · exact delivers_infinite plain stands isInfinite rpa
    refine delivers_item plain rfl stands
      (fun wanted positive => by rw [reifyItem, if_neg isInfinite])
      (fun wanted positive => ih _ ?_) rpa
    cases eager with
    | true => trivial
    | false => exact positive

/-- The number of elements at which the loop stops. -/
def Ask.size : Ask → Int
  | .whatever => 100000
  | .count n => n

theorem reify_delivers (isFlat : Flattens iters flattens rest out)
    (ask : Ask) : ∃ delivered later remaining, (∃ bound, ∀ fuel, bound ≤ fuel →
        reify iters flattens false fuel rest ask = .ok (delivered, later)) ∧
      out = delivered ++ remaining ∧ Flattens iters flattens later remaining ∧
      (later = [] ∨ ask.size ≤ delivered.length ∨
        (ask = .whatever ∧ StartsInfinite iters later)) := by
  cases ask with
  | whatever =>
    rcases isFlat.stretches.delivers [] with ⟨delivered, later, remaining, delivers⟩
    exact ⟨delivered, later, remaining, delivers.result, delivers.inOrder, delivers.stands,
      delivers.stopped.imp_right (Or.imp_right fun stopped => ⟨rfl, stopped.2⟩)⟩
  | count n =>
    rcases isFlat.stretches.delivers [] with ⟨delivered, later, remaining, delivers⟩
    exact ⟨delivered, later, remaining, delivers.result, delivers.inOrder, delivers.stands,
      delivers.stopped.imp_right (Or.imp_right fun eager => absurd eager.1 Bool.false_ne_true)⟩

end RakudoStar.Lazy
