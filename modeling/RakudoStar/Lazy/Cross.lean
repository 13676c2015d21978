import RakudoStar.Foundation.Tuples
import RakudoStar.Lazy.Serving

/-!
# The cross meta-operator

`METAOP_CROSS` walks up and down over the lists: the list at the index is shifted, and on the
way down the next one is made anew from its argument.
-/

namespace RakudoStar.Lazy

open Foundation List Nat

variable {V I R : Type}

/-- The variables of the block that is gathered from. -/
structure CrossState (V I : Type) where
  l : List (LazyList V I)
  v : List (Item V I)
  i : Int

/-- An assignment to an element of an array; `gap` stands in elements that are skipped. -/
def assignAt {A : Type} (gap : A) (elements : List A) (pos : Nat) (x : A) : List A :=
  if pos < elements.length then elements.set pos x
  else elements ++ List.replicate (pos - elements.length) gap ++ [x]

/-- A list without elements, where there is none. -/
def noList : LazyList V I := ⟨[], none, false, false⟩

/-- `(@lol[$i].flat,).list`. An argument is known by the identity of its `.flat`. -/
def flatArgument (lol : List I) (i : Nat) : LazyList V I :=
  match lol[i]? with
  | some flat => ⟨[], some [.iterable flat], false, false⟩
  | none => noList

/-- What an assignment takes out of a container. -/
def Item.contents : Item V I → Item V I
  | .container x => x
  | x => x

/-- What is assigned from a reply of `shift`; a failure is an object of its own. -/
def Reply.assigned : Reply V I → Item V I
  | .element x => x.contents
  | _ => .typeObject .other

/-- The variable `$rop`. -/
def crossOperator (op : List (Item V I) → R) (reduce : (List (Item V I) → R) → List (Item V I) → R)
    (lol : List I) : List (Item V I) → R :=
  if lol.length = 2 then op else reduce op

/-- The state in front of the loop. -/
def crossStart (lol : List I) : CrossState V I := ⟨[flatArgument lol 0], [], 0⟩

/-- A round of the loop, with what it takes. -/
def crossRound (iters : Iterators V I) (fuel : Nat) (lol : List I) (rop : List (Item V I) → R)
    (st : CrossState V I) : Except Failure (Option R × CrossState V I) := do
  let i := st.i.toNat
  let list ← gimme iters (.count 1) fuel (st.l.getD i noList)
  if list.items.length ≠ 0 then
    let (reply, list) ← serve iters fuel list .shift
    let l := assignAt noList st.l i list
    let v := assignAt (.typeObject .other) st.v i reply.assigned
    if (lol.length : Int) - 1 ≤ st.i then .ok (some (rop v), ⟨l, v, st.i⟩)
    else .ok (none, ⟨assignAt noList l (i + 1) (flatArgument lol (i + 1)), v, st.i + 1⟩)
  else .ok (none, ⟨assignAt noList st.l i list, st.v, st.i - 1⟩)

/-- The loop for some rounds, up to the next value that is taken. -/
def crossRounds (iters : Iterators V I) (fuel : Nat) (lol : List I) (rop : List (Item V I) → R) :
    Nat → CrossState V I → Except Failure (List R × CrossState V I)
  | 0, st => .ok ([], st)
  | rounds + 1, st =>
    if 0 ≤ st.i then do
      let (taken, st) ← crossRound iters fuel lol rop st
      let (later, st) ← crossRounds iters fuel lol rop rounds st
      .ok (taken.toList ++ later, st)
    else .ok ([], st)

variable {A : Type} {pos : Nat} {elements : List A} (gap : A)

section

variable (low : pos ≤ elements.length)

include low

theorem assignAt_eq (x : A) :
    assignAt gap elements pos x = elements.take pos ++ x :: elements.drop (pos + 1) := by
  rw [assignAt]
  split
  · next inside => rw [set_eq_take_append_cons_drop, if_pos inside]
  next outside =>
    obtain rfl : pos = elements.length := by omega
    rw [take_length, drop_of_length_le (le_succ _), Nat.sub_self]
    simp

theorem assignAt_take (x : A) : (assignAt gap elements pos x).take pos = elements.take pos := by
  rw [assignAt_eq gap low, take_append_of_le_length (by simp [low]), take_take, min_self]

theorem assignAt_take_succ (x : A) :
    (assignAt gap elements pos x).take (pos + 1) = elements.take pos ++ [x] := by
  have length : (elements.take pos).length = pos := length_take_of_le low
  rw [assignAt_eq gap low, take_append, length, Nat.add_sub_cancel_left, take_take,
    min_eq_right (le_succ pos)]
  rfl

theorem assignAt_get (x : A) : (assignAt gap elements pos x)[pos]? = some x := by
  rw [assignAt_eq gap low, getElem?_append_right (length_take_le _ _)]
  simp [min_eq_left low]

theorem assignAt_length (x : A) :
    (assignAt gap elements pos x).length = max elements.length (pos + 1) := by
  rw [assignAt_eq gap low]
  simp
  omega

end

variable {iters : Iterators V I}

variable (iters) in
/-- A list that has another element, and what is left of it. -/
def Yields (list : LazyList V I) (x : Item V I) (later : LazyList V I) : Prop :=
  ∃ bound, ∀ fuel, bound ≤ fuel →
    gimme iters (.count 1) fuel list = .ok { later with items := x :: later.items }

variable (iters) in
/-- A list that has no elements any more, and what `gimme` makes of it. -/
def Ends (list after : LazyList V I) : Prop :=
  after.items = [] ∧ ∃ bound, ∀ fuel, bound ≤ fuel → gimme iters (.count 1) fuel list = .ok after

variable {list : LazyList V I} {seq : List (Item V I)} {x : Item V I}

theorem LazyList.Holds.yields (holds : list.Holds iters (x :: seq)) :
    ∃ later, Yields iters list x later ∧ later.Holds iters seq := by
  rcases gimme_count holds 1 with ⟨after, still, enough, bound, runs⟩
  cases items : after.items with
  | nil =>
    rw [items] at enough
    rcases enough with more | complete
    · exact absurd more (by simp)
    · cases complete
  | cons y rest =>
    have split : after.items = [y] ++ rest := items
    rcases still.take_out split with ⟨later, eq, laterHolds⟩
    obtain ⟨rfl, rfl⟩ := List.cons.inj eq
    refine ⟨{ after with items := rest }, ⟨bound, fun fuel large => ?_⟩, laterHolds⟩
    rw [runs fuel large, ← items]

theorem LazyList.Holds.ends (holds : list.Holds iters []) : ∃ after, Ends iters list after := by
  rcases gimme_count holds 1 with ⟨after, still, _, bound, runs⟩
  exact ⟨after, eq_nil_of_length_eq_zero (le_zero.mp still.length_le), bound, runs⟩

variable (iters) in
/-- A round, with enough fuel for the list. -/
def Steps (lol : List I) (rop : List (Item V I) → R) (st : CrossState V I) (taken : Option R)
    (after : CrossState V I) : Prop :=
  ∃ bound, ∀ fuel, bound ≤ fuel → crossRound iters fuel lol rop st = .ok (taken, after)

variable (iters) in
/-- Some rounds, with what they take. -/
inductive Gathers (lol : List I) (rop : List (Item V I) → R) :
    CrossState V I → List R → CrossState V I → Prop
  | nothing (st) : Gathers lol rop st [] st
  | step {st middle after taken out} : 0 ≤ st.i → Steps iters lol rop st taken middle →
      Gathers lol rop middle out after → Gathers lol rop st (taken.toList ++ out) after

variable {lol : List I} {rop : List (Item V I) → R} {st middle after : CrossState V I}

theorem Gathers.trans {out out' : List R}
    (first : Gathers iters lol rop st out middle)
    (later : Gathers iters lol rop middle out' after) :
    Gathers iters lol rop st (out ++ out') after := by
  induction first with
  | nothing _ => exact later
  | step inside round _ ih =>
    rw [append_assoc]
    exact .step inside round (ih later)

theorem Gathers.rounds {out : List R}
    (gathers : Gathers iters lol rop st out after) : ∃ rounds bound, ∀ fuel, bound ≤ fuel →
      crossRounds iters fuel lol rop rounds st = .ok (out, after) := by
  induction gathers with
  | nothing _ => exact ⟨0, 0, fun _ _ => rfl⟩
  | step inside round _ ih =>
    rcases round with ⟨bound, round⟩
    rcases ih with ⟨rounds, laterBound, later⟩
    refine ⟨rounds + 1, max bound laterBound, fun fuel large => ?_⟩
    rw [crossRounds, if_pos inside, round fuel ((Nat.le_max_left _ _).trans large)]
    dsimp only [Except.ok_bind]
    rw [later fuel ((Nat.le_max_right _ _).trans large)]
    rfl

/-- The list at the index, and the values in front of it. -/
structure AtLevel (lol : List I) (st : CrossState V I) (i : Nat) (list : LazyList V I) : Prop where
  index : st.i = i
  list : st.l[i]? = some list
  values : i ≤ st.v.length
  inside : i < lol.length
  few : st.v.length ≤ lol.length

variable {i i : Nat} {later : LazyList V I}

theorem AtLevel.getD (atLevel : AtLevel lol st i list) : st.l.getD st.i.toNat noList = list := by
  rw [atLevel.index, Int.toNat_natCast, getD_eq_getElem?_getD, atLevel.list]
  rfl

theorem AtLevel.low (atLevel : AtLevel lol st i list) : i ≤ st.l.length :=
  Nat.le_of_lt (List.getElem?_eq_some_iff.mp atLevel.list).1

/-- What a shift does to the list at the index and to the values. -/
def shiftedState (st : CrossState V I) (i : Nat) (x : Item V I) (later : LazyList V I) :
    CrossState V I :=
  ⟨assignAt noList st.l i later, assignAt (.typeObject .other) st.v i x.contents, i⟩

/-- The state a level deeper. -/
def descended (lol : List I) (st : CrossState V I) (i : Nat) : CrossState V I :=
  ⟨assignAt noList st.l (i + 1) (flatArgument lol (i + 1)), st.v, (i + 1 : Nat)⟩

section

variable (atLevel : AtLevel lol st i list)

include atLevel

theorem AtLevel.crossRound_eq {fuel : Nat}
    (yields : gimme iters (.count 1) fuel list = .ok { later with items := x :: later.items }) :
    crossRound iters fuel lol rop st =
      if i + 1 = lol.length then
        .ok (some (rop (shiftedState st i x later).v), shiftedState st i x later)
      else .ok (none, descended lol (shiftedState st i x later) i) := by
  have inside := atLevel.inside
  have isLast : (lol.length : Int) - 1 ≤ i ↔ i + 1 = lol.length := by omega
  rw [crossRound, atLevel.getD, yields]
  simp [serve, shiftItem, Reply.assigned, shiftedState, descended, atLevel.index, isLast]

theorem AtLevel.steps_take (last : i + 1 = lol.length) (yields : Yields iters list x later) :
    Steps iters lol rop st (some (rop (shiftedState st i x later).v))
      (shiftedState st i x later) := by
  rcases yields with ⟨bound, yields⟩
  refine ⟨bound, fun fuel large => ?_⟩
  rw [atLevel.crossRound_eq (yields fuel large), if_pos last]

theorem AtLevel.steps_descend (notLast : i + 1 ≠ lol.length) (yields : Yields iters list x later) :
    Steps iters lol rop st none (descended lol (shiftedState st i x later) i) := by
  rcases yields with ⟨bound, yields⟩
  refine ⟨bound, fun fuel large => ?_⟩
  rw [atLevel.crossRound_eq (yields fuel large), if_neg notLast]

theorem AtLevel.steps_ascend {after : LazyList V I} (ends : Ends iters list after) :
    Steps iters lol rop st none ⟨assignAt noList st.l i after, st.v, (i : Int) - 1⟩ := by
  rcases ends with ⟨empty, bound, ends⟩
  refine ⟨bound, fun fuel large => ?_⟩
  rw [crossRound, atLevel.getD, ends fuel large]
  simp [empty, atLevel.index]

end

/-- The lists and the values in front of a level stay. -/
structure KeepsBelow (lol : List I) (i : Nat) (st after : CrossState V I) : Prop where
  l : after.l.take i = st.l.take i
  v : after.v.take i = st.v.take i
  values : i ≤ after.v.length
  few : after.v.length ≤ lol.length

theorem AtLevel.shiftedState
    (atLevel : AtLevel lol st i list) (x : Item V I) (later : LazyList V I) :
    AtLevel lol (shiftedState st i x later) i later ∧
      KeepsBelow lol i st (Lazy.shiftedState st i x later) ∧
      (Lazy.shiftedState st i x later).v.take (i + 1) = st.v.take i ++ [x.contents] ∧
      i + 1 ≤ (Lazy.shiftedState st i x later).v.length := by
  have inside := atLevel.inside
  have values := atLevel.values
  have few := atLevel.few
  have length := assignAt_length (.typeObject .other) values x.contents
  refine ⟨⟨rfl, assignAt_get noList atLevel.low later, ?_, inside, ?_⟩,
    ⟨assignAt_take noList atLevel.low later, assignAt_take _ values x.contents, ?_, ?_⟩,
    assignAt_take_succ _ values x.contents, ?_⟩
  all_goals
    rw [Lazy.shiftedState]
    dsimp only
    omega

theorem KeepsBelow.trans
    (first : KeepsBelow lol i st middle) (later : KeepsBelow lol i middle after) :
    KeepsBelow lol i st after :=
  ⟨later.l.trans first.l, later.v.trans first.v, later.values, later.few⟩

theorem take_of_take_succ {first second : List A}
    (same : first.take (i + 1) = second.take (i + 1)) : first.take i = second.take i := by
  have shorter := congrArg (take i) same
  rwa [take_take, take_take, min_eq_left (le_succ i)] at shorter

theorem KeepsBelow.above (keeps : KeepsBelow lol (i + 1) st after) : KeepsBelow lol i st after :=
  ⟨take_of_take_succ keeps.l, take_of_take_succ keeps.v, le_of_succ_le keeps.values, keeps.few⟩

/-- What is assigned from some lists. -/
def assignedTuples (seqs : List (List (Item V I))) : List (List (Item V I)) :=
  tuples (seqs.map (List.map Item.contents))

theorem assignedTuples_cons (x : Item V I) (seq : List (Item V I))
    (seqs : List (List (Item V I))) : assignedTuples ((x :: seq) :: seqs) =
      (assignedTuples seqs).map (x.contents :: ·) ++ assignedTuples (seq :: seqs) := rfl

variable (iters) in
/-- The lists that come from the arguments. -/
def FlattenAll (lol : List I) (seqs : List (List (Item V I))) : Prop :=
  List.Forall₂ (fun flat seq => Flattens iters false [.iterable flat] seq) lol seqs

theorem flatArgument_holds {flat : I} (at' : lol[i]? = some flat)
    (stands : Flattens iters false [.iterable flat] seq) :
    (flatArgument lol i).Holds iters seq := by
  rw [flatArgument, at']
  exact ⟨seq, .rest rfl rfl stands, rfl⟩

variable (iters lol rop) in
/-- What the loop does with one element of the list. -/
def ElementGathers (i : Nat) (seqs : List (List (Item V I))) : Prop :=
  ∀ {st list x later}, AtLevel lol st i list → Yields iters list x later →
    ∃ after, Gathers iters lol rop st
        ((assignedTuples seqs).map fun tuple => rop (st.v.take i ++ x.contents :: tuple)) after ∧
      AtLevel lol after i later ∧ KeepsBelow lol i st after

variable {seqs : List (List (Item V I))}

theorem ElementGathers.level (element : ElementGathers iters lol rop i seqs)
    (atLevel : AtLevel lol st i list) (holds : list.Holds iters seq) :
    ∃ after, Gathers iters lol rop st
        ((assignedTuples (seq :: seqs)).map fun tuple => rop (st.v.take i ++ tuple)) after ∧
      after.i = (i : Int) - 1 ∧ KeepsBelow lol i st after := by
  induction seq generalizing st list with
  | nil =>
    rcases holds.ends with ⟨after, ends⟩
    have inside : 0 ≤ st.i := by simp [atLevel.index]
    refine ⟨_, .step inside (atLevel.steps_ascend ends) (.nothing _), rfl, ?_⟩
    exact ⟨assignAt_take noList atLevel.low after, rfl, atLevel.values, atLevel.few⟩
  | cons x seq ih =>
    rcases holds.yields with ⟨later, yields, laterHolds⟩
    rcases element atLevel yields with ⟨middle, first, atLevel', keeps⟩
    rcases ih atLevel' laterHolds with ⟨after, rest, index, keeps'⟩
    refine ⟨after, ?_, index, keeps.trans keeps'⟩
    have all := first.trans rest
    rw [keeps.v] at all
    rw [assignedTuples_cons, map_append, map_map]
    exact all

/-- On the last list an element takes one value, on another one a run of the lists behind. -/
theorem elementGathers
    (behind : FlattenAll iters (lol.drop (i + 1)) seqs) : ElementGathers iters lol rop i seqs := by
  induction seqs generalizing i with
  | nil =>
    intro st list x later atLevel yields
    have last : i + 1 = lol.length := by
      have none := drop_eq_nil_iff.mp (forall₂_nil_right_iff.mp behind)
      exact le_antisymm atLevel.inside none
    obtain ⟨atLevel', keeps, values, long⟩ := atLevel.shiftedState x later
    have all : (shiftedState st i x later).v = st.v.take i ++ [x.contents] := by
      rw [← values, take_of_length_le (by rw [last]; exact atLevel'.few)]
    have inside : 0 ≤ st.i := by simp [atLevel.index]
    have round : Steps iters lol rop st (some (rop (shiftedState st i x later).v))
        (shiftedState st i x later) := atLevel.steps_take last yields
    have run := Gathers.step inside round (.nothing _)
    rw [all] at run
    exact ⟨_, run, atLevel', keeps⟩
  | cons seq seqs ih =>
    intro st list x later atLevel yields
    obtain ⟨flat, rest, stands, behind, split⟩ := forall₂_cons_right_iff.mp behind
    have next : lol[i + 1]? = some flat := by
      rw [← head?_drop, split]
      rfl
    have inside : i + 1 < lol.length := (List.getElem?_eq_some_iff.mp next).1
    obtain ⟨atLevel', keeps, values, long⟩ := atLevel.shiftedState x later
    have low : i + 1 ≤ (shiftedState st i x later).l.length :=
      (List.getElem?_eq_some_iff.mp atLevel'.list).1
    have deeper : AtLevel lol (descended lol (shiftedState st i x later) i) (i + 1)
        (flatArgument lol (i + 1)) :=
      ⟨rfl, assignAt_get noList low _, long, inside, atLevel'.few⟩
    have element : ElementGathers iters lol rop (i + 1) seqs := by
      refine ih ?_
      rw [← drop_drop, split]
      exact behind
    obtain ⟨after, run, index, below⟩ := element.level deeper (flatArgument_holds next stands)
    have started : 0 ≤ st.i := by simp [atLevel.index]
    have round : Steps iters lol rop st none (descended lol (shiftedState st i x later) i) :=
      atLevel.steps_descend inside.ne yields
    have kept : (descended lol (shiftedState st i x later) i).l.take (i + 1) =
        (shiftedState st i x later).l.take (i + 1) := assignAt_take noList low _
    have back : after.l[i]? = some later := by
      have same := congrArg (fun elements => elements[i]?) (below.l.trans kept)
      simp only [getElem?_take, lt_succ_self, if_true] at same
      rw [same, atLevel'.list]
    refine ⟨after, ?_, ⟨by rw [index]; simp, back, le_of_succ_le below.values,
      atLevel.inside, below.few⟩, keeps.trans ⟨?_, below.above.v, below.above.values, below.few⟩⟩
    · have all := Gathers.step started round run
      have front : (descended lol (shiftedState st i x later) i).v.take (i + 1) =
          st.v.take i ++ [x.contents] := values
      simp only [front, append_assoc, singleton_append] at all
      exact all
    · exact take_of_take_succ (below.l.trans kept)

variable (iters) in
/-- A rest whose elements begin with some sequence, however they are asked for. -/
inductive Begins (flattens : Bool) : List (Item V I) → List (Item V I) → Prop
  | stop {rest} : Begins flattens rest []
  | element {x rest out} : x.expands flattens = false → Begins flattens rest out →
      Begins flattens (x :: rest) (x :: out)
  | nothing {rest out} : Begins flattens rest out → Begins flattens (.typeObject .nil :: rest) out
  | parcel {storage rest out} : flattens = true → Begins flattens (storage ++ rest) out →
      Begins flattens (.parcel storage :: rest) out
  | iterable {i rest out} :
      (∀ ask : Ask, ask.Wants → Begins flattens (iters.reify i ask ++ rest) out) →
      Begins flattens (.iterable i :: rest) out

/-- A pass that stops at the first element and goes on with a rest. -/
theorem reifyLoop_one_of_item {flattens : Bool} {rest : List (Item V I)}
    (stops : x.stops flattens = true) {moved next : List (Item V I)}
    (item : reifyItem iters false 1 rest x = .ok (some (moved, next))) (fuel : Nat) :
    reifyLoop iters flattens false 1 (fuel + 1) [] (x :: rest) =
      reifyLoop iters flattens false 1 fuel moved next := by
  have plain : ∀ y ∈ ([] : List (Item V I)), y.stops flattens = false := nofun
  exact @reifyLoop_item _ _ iters flattens false 1 [] rest x plain stops [] Int.zero_lt_one
    (some (moved, next)) item fuel

/-- The loop of `reify` delivers the first element of a rest when it is asked for one. -/
theorem Begins.reifyLoop_one {flattens : Bool} {rest : List (Item V I)}
    {out : List (Item V I)} (begins : Begins iters flattens rest (x :: out)) :
    ∃ later, Begins iters flattens later out ∧ ∃ bound, ∀ fuel, bound ≤ fuel →
      reifyLoop iters flattens false 1 fuel [] rest = .ok ([x], later) := by
  generalize eq : x :: out = seq at begins
  induction begins with
  | stop => cases eq
  | @element y rest out' plain later _ =>
    obtain ⟨rfl, rfl⟩ := List.cons.inj eq
    refine ⟨rest, later, 2, fun fuel large => ?_⟩
    rcases Nat.exists_eq_add_of_le' large with ⟨fuel, rfl⟩
    cases stops : x.stops flattens with
    | true =>
      rcases Item.typeObject_of_stops plain stops with ⟨type, rfl, notNil⟩
      have item : reifyItem iters false 1 rest (.typeObject type) =
          .ok (some ([.typeObject type], rest)) := by
        cases type with
        | nil => exact absurd rfl notNil
        | iterable | parcel | other => rfl
      rw [reifyLoop_one_of_item stops item (fuel + 1)]
      exact reifyLoop_done (.inr (Int.le_refl 1)) fuel
    | false =>
      have index : nextIndex flattens (x :: rest) (1 : Int).toNat = 1 := by
        rw [nextIndex_eq]
        simp [stops]
      have pass := @reifyLoop_enough _ _ iters flattens false 1 [] (x :: rest) (by simp)
        (.inr (by rw [index]; exact Int.le_refl 1)) fuel
      rwa [index] at pass
  | nothing _ ih =>
    rcases ih eq with ⟨later, still, bound, runs⟩
    refine ⟨later, still, bound + 1, fun fuel large => ?_⟩
    rcases Nat.exists_eq_add_of_le' large with ⟨extra, rfl⟩
    rw [← Nat.add_assoc, reifyLoop_one_of_item rfl rfl]
    exact runs _ (Nat.le_add_left bound extra)
  | @parcel storage rest out' isFlat _ ih =>
    rcases ih eq with ⟨later, still, bound, runs⟩
    refine ⟨later, still, bound + 1, fun fuel large => ?_⟩
    rcases Nat.exists_eq_add_of_le' large with ⟨extra, rfl⟩
    have stops : Item.stops flattens (.parcel storage : Item V I) = true := by
      rw [Item.stops, isFlat]
      rfl
    rw [← Nat.add_assoc, reifyLoop_one_of_item stops rfl]
    exact runs _ (Nat.le_add_left bound extra)
  | @iterable i rest out _ ih =>
    have wants : (Ask.count 1).Wants := Int.zero_lt_one
    rcases ih (.count 1) wants eq with ⟨later, still, bound, runs⟩
    have item : reifyItem iters false 1 rest (.iterable i) =
        .ok (some ([], iters.reify i (.count 1) ++ rest)) := by simp [reifyItem]
    refine ⟨later, still, bound + 1, fun fuel large => ?_⟩
    rcases Nat.exists_eq_add_of_le' large with ⟨extra, rfl⟩
    rw [← Nat.add_assoc, reifyLoop_one_of_item rfl item]
    exact runs _ (Nat.le_add_left bound extra)

variable (iters) in
/-- A list that has reified nothing yet and begins with some sequence. -/
structure BeginsWith (list : LazyList V I) (seq : List (Item V I)) : Prop where
  fresh : list.items = []
  isList : list.isLoL = false
  rest : ∃ rest, list.nextiter = nextIter rest ∧ Begins iters list.flattens rest seq

theorem BeginsWith.yields (beginsWith : BeginsWith iters list (x :: seq)) :
    ∃ later, Yields iters list x later ∧ BeginsWith iters later seq := by
  rcases beginsWith with ⟨fresh, isList, rest, next, begins⟩
  rcases begins.reifyLoop_one with ⟨later, still, bound, runs⟩
  cases rest with
  | nil => cases begins
  | cons y rest =>
    rw [nextIter_cons] at next
    refine ⟨{ list with items := [], nextiter := nextIter later },
      ⟨bound + 2, fun fuel large => ?_⟩, ⟨rfl, isList, later, rfl, still⟩⟩
    rcases Nat.exists_eq_add_of_le' large with ⟨extra, rfl⟩
    have more : wantsMore iters list (y :: rest) (.count 1) = .ok true := by
      rw [wantsMore, fresh]
      rfl
    have round : gimmeRound iters (extra + bound + 1) list (y :: rest) (.count 1) =
        .ok { list with items := [x], nextiter := nextIter later } := by
      have asked : roundAsk list (.count 1) = .count 1 := by
        rw [roundAsk, fresh]
        rfl
      rw [gimmeRound, isList, asked, reify]
      rw [if_neg Bool.false_ne_true, runs _ (by omega)]
      simp [LazyList.reifyInto, fresh, isList]
    rw [← Nat.add_assoc, gimme_round next more round]
    cases last : nextIter later with
    | none => exact gimme_finished rfl _ _
    | some tail => exact gimme_enough rfl rfl _

theorem ElementGathers.beginning (element : ElementGathers iters lol rop i seqs)
    (atLevel : AtLevel lol st i list) (begins : BeginsWith iters list seq) :
    ∃ after, Gathers iters lol rop st
        ((assignedTuples (seq :: seqs)).map fun tuple => rop (st.v.take i ++ tuple)) after := by
  induction seq generalizing st list with
  | nil => exact ⟨st, .nothing st⟩
  | cons x seq ih =>
    rcases begins.yields with ⟨later, yields, laterBegins⟩
    rcases element atLevel yields with ⟨middle, first, atLevel', keeps⟩
    rcases ih atLevel' laterBegins with ⟨after, rest⟩
    refine ⟨after, ?_⟩
    have all := first.trans rest
    rw [keeps.v] at all
    rw [assignedTuples_cons, map_append, map_map]
    exact all

theorem crossStart_atLevel (first : I) (others : List I) :
    AtLevel (first :: others) (crossStart (first :: others) : CrossState V I) 0
      (flatArgument (first :: others) 0) :=
  ⟨rfl, rfl, le_refl 0, succ_pos _, zero_le _⟩

/-- Finite lists are gathered to the end. Where the first one goes on for ever, what it begins
with is gathered, and the rest comes after it. -/
theorem metaopCross_enumerates (iters : Iterators V I) (op : List (Item V I) → R)
    (reduce : (List (Item V I) → R) → List (Item V I) → R) (first : I) (others : List I)
    (seqs : List (List (Item V I))) (flat : FlattenAll iters others seqs) :
    (∀ seq, Flattens iters false [.iterable first] seq →
      ∃ out, Enumerates ((seq :: seqs).map (map Item.contents)) out ∧
        ∃ after rounds bound, after.i < 0 ∧ ∀ fuel, bound ≤ fuel →
          crossRounds iters fuel (first :: others)
              (crossOperator op reduce (first :: others)) rounds (crossStart (first :: others)) =
            .ok (out.map (crossOperator op reduce (first :: others)), after)) ∧
    ∀ seq, Begins iters false [.iterable first] seq →
      ∃ out, Enumerates ((seq :: seqs).map (map Item.contents)) out ∧
        ∃ after rounds bound, ∀ fuel, bound ≤ fuel → crossRounds iters fuel (first :: others)
              (crossOperator op reduce (first :: others)) rounds (crossStart (first :: others)) =
            .ok (out.map (crossOperator op reduce (first :: others)), after) := by
  have element : ElementGathers iters (first :: others)
      (crossOperator op reduce (first :: others)) 0 seqs := elementGathers flat
  have atLevel := @crossStart_atLevel V I first others
  constructor
  · intro seq stands
    refine ⟨_, tuples_enumerates _, ?_⟩
    obtain ⟨after, run, index, _⟩ := element.level atLevel (flatArgument_holds rfl stands)
    obtain ⟨rounds, bound, runs⟩ := run.rounds
    exact ⟨after, rounds, bound, by rw [index]; decide, runs⟩
  intro seq begins
  refine ⟨_, tuples_enumerates _, ?_⟩
  have beginsWith : BeginsWith iters (flatArgument (first :: others) 0) seq :=
    ⟨rfl, rfl, [.iterable first], rfl, begins⟩
  obtain ⟨after, run⟩ := element.beginning atLevel beginsWith
  obtain ⟨rounds, bound, runs⟩ := run.rounds
  exact ⟨after, rounds, bound, runs⟩

def countingLists : Iterators Nat (Option Nat) where
  reify
    | none, _ => [.value 10, .value 20]
    | some n, _ => [.value n, .iterable (some (n + 1))]
  infinite := Option.isSome

theorem countingLists_pair : Flattens countingLists false [.iterable none] [.value 10, .value 20] :=
  .iterable fun _ _ => .element rfl (.element rfl .nil)

theorem metaopCross_enumerates_counting : (∃ out : List (List (Item Nat (Option Nat))),
      Enumerates [[.value 10, .value 20], [.value 10, .value 20]] out ∧
      ∃ after rounds bound, after.i < 0 ∧ ∀ fuel, bound ≤ fuel →
        crossRounds countingLists fuel [none, none]
            (crossOperator length id [none, (none : Option Nat)]) rounds (crossStart [none, none]) =
          .ok (out.map (crossOperator length id [none, (none : Option Nat)]), after)) ∧
      ∃ out : List (List (Item Nat (Option Nat))),
        Enumerates [[.value 1, .value 2], [.value 10, .value 20]] out ∧
        ∃ after rounds bound, ∀ fuel, bound ≤ fuel → crossRounds countingLists fuel [some 1, none]
              (crossOperator length id [some 1, none]) rounds (crossStart [some 1, none]) =
            .ok (out.map (crossOperator length id [some 1, none]), after) :=
  ⟨(metaopCross_enumerates countingLists length id none [none] _
      (.cons countingLists_pair .nil)).1 _ countingLists_pair,
    (metaopCross_enumerates countingLists length id (some 1) [none] _
      (.cons countingLists_pair .nil)).2 _
      (.iterable fun _ _ => .element rfl (.iterable fun _ _ => .element rfl .stop))⟩

end RakudoStar.Lazy
