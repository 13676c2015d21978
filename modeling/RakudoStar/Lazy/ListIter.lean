import RakudoStar.Foundation.Except

/-!
# Lazy lists

A list holds its reified elements and a `ListIter` for the rest. `reify` moves elements out of
the rest, and puts there what iterators give it on its way.
-/

namespace RakudoStar.Lazy

/-- `readsAttribute`: the type's `infinite` looks up an attribute. -/
inductive ObjectType where
  | nil
  | iterable (readsAttribute : Bool)
  | parcel
  | other
  deriving DecidableEq, Repr

/-- What an array of remaining elements holds. Objects that do `Iterable` are known by
their identity. -/
inductive Item (V I : Type) where
  | value (v : V)
  | container (contents : Item V I)
  | typeObject (type : ObjectType)
  | parcel (storage : List (Item V I))
  | iterable (i : I)

/-- A number of elements, or `*`. -/
inductive Ask where
  | whatever
  | count (n : Int)
  deriving DecidableEq, Repr

/-- What iterable objects answer: the storage `.iterator.reify` returns, and `infinite`. -/
structure Iterators (V I : Type) where
  reify : I → Ask → List (Item V I)
  infinite : I → Bool

/-- Whether an iterator is asked for this: never for no elements. -/
def Ask.Wants : Ask → Prop
  | .whatever => True
  | .count n => 0 < n

inductive Failure where
  | outOfFuel
  | noStorage
  | attributeInTypeObject
  deriving DecidableEq, Repr

variable {V I : Type}

/-- `istype($x, Iterable)`, for what is not in a container. -/
def Item.isIterable : Item V I → Bool
  | .iterable _ => true
  | .typeObject .nil => true
  | .typeObject (.iterable _) => true
  | _ => false

/-- `istype($x, Parcel)`, for what is not in a container. -/
def Item.isParcel : Item V I → Bool
  | .parcel _ => true
  | .typeObject .parcel => true
  | _ => false

/-- `perl6_rpa_find_type`, from the first element on. -/
def rpaFindType (rpa : List (Item V I)) (type : Item V I → Bool) (last : Nat) : Nat :=
  (rpa.take last).findIdx type

/-- The index of the first element that is not moved as it is. -/
def nextIndex (flattens : Bool) (rest : List (Item V I)) (count : Nat) : Nat :=
  let index := rpaFindType rest Item.isIterable count
  if flattens then rpaFindType rest Item.isParcel index else index

/-- What the loop does at an element when `wanted` more are wanted; `none` for `last`. -/
def reifyItem (iters : Iterators V I) (eager : Bool) (wanted : Int) (rest : List (Item V I)) :
    Item V I → Except Failure (Option (List (Item V I) × List (Item V I)))
  | .iterable i =>
    if eager ∧ iters.infinite i then .ok none
    else .ok (some ([], iters.reify i (if eager then .whatever else .count wanted) ++ rest))
  -- a parcel is not infinite
  | .parcel storage => .ok (some ([], storage ++ rest))
  | .typeObject .nil => .ok (some ([], rest))
  | .typeObject type => .ok (some ([.typeObject type], rest))
  | .value _ => .error .noStorage
  | .container _ => .error .noStorage

/-- The loop of `ListIter.reify`. -/
def reifyLoop (iters : Iterators V I) (flattens eager : Bool) (count : Int) :
    Nat → List (Item V I) → List (Item V I) → Except Failure (List (Item V I) × List (Item V I))
  | 0, _, _ => .error .outOfFuel
  | fuel + 1, rpa, rest =>
    if rest = [] ∨ count ≤ rpa.length then .ok (rpa, rest)
    else
      let index := nextIndex flattens rest count.toNat
      let rpa := rpa ++ rest.take index
      match rest.drop index with
      | [] => reifyLoop iters flattens eager count fuel rpa []
      | x :: rest =>
        if count ≤ rpa.length then reifyLoop iters flattens eager count fuel rpa (x :: rest)
        else
          match reifyItem iters eager (count - rpa.length) rest x with
          | .error failure => .error failure
          | .ok none => .ok (rpa, x :: rest)
          | .ok (some (moved, rest)) =>
            reifyLoop iters flattens eager count fuel (rpa ++ moved) rest

/-- A `List` or an `LoL`; `nextiter` holds the rest of its iterator. -/
structure LazyList (V I : Type) where
  items : List (Item V I)
  nextiter : Option (List (Item V I))
  flattens : Bool
  isLoL : Bool

/-- A new iterator, where there is a rest. -/
def nextIter (rest : List (Item V I)) : Option (List (Item V I)) :=
  if rest = [] then none else some rest

/-- `ListIter.reify`, up to the call of `REIFY`: the parcel and the rest. -/
def reify (iters : Iterators V I) (flattens isLoL : Bool) (fuel : Nat) (rest : List (Item V I))
    (ask : Ask) : Except Failure (List (Item V I) × List (Item V I)) :=
  let started := if isLoL then (rest, []) else ([], rest)
  match ask with
  | .whatever => reifyLoop iters flattens true 100000 fuel started.1 started.2
  | .count n => reifyLoop iters flattens false n fuel started.1 started.2

/-- `List.REIFY` and `LoL.REIFY`, which puts the elements into containers. -/
def LazyList.reifyInto (list : LazyList V I) (parcel rest : List (Item V I)) : LazyList V I :=
  { list with
    items := list.items ++ if list.isLoL then parcel.map .container else parcel
    nextiter := nextIter rest }

/-- `ListIter.infinite`, where there is a rest. -/
def restInfinite (iters : Iterators V I) : List (Item V I) → Except Failure Bool
  | .iterable i :: _ => .ok (iters.infinite i)
  | .typeObject (.iterable true) :: _ => .error .attributeInTypeObject
  | _ => .ok false

/-- Whether `gimme` asks the iterator once more. -/
def wantsMore (iters : Iterators V I) (list : LazyList V I) (rest : List (Item V I)) :
    Ask → Except Failure Bool
  | .whatever => do
    let infinite ← restInfinite iters rest
    .ok (!infinite)
  | .count n => .ok ((list.items.length : Int) < n)

/-- What `gimme` asks for in a round. -/
def roundAsk (list : LazyList V I) : Ask → Ask
  | .whatever => .whatever
  | .count n => .count (n - list.items.length)

/-- A round of `gimme`. -/
def gimmeRound (iters : Iterators V I) (fuel : Nat) (list : LazyList V I)
    (rest : List (Item V I)) (ask : Ask) : Except Failure (LazyList V I) := do
  let (parcel, rest) ← reify iters list.flattens list.isLoL fuel rest (roundAsk list ask)
  .ok (list.reifyInto parcel rest)

/-- The loop of `gimme`. -/
def gimme (iters : Iterators V I) (ask : Ask) : Nat → LazyList V I → Except Failure (LazyList V I)
  | 0, _ => .error .outOfFuel
  | fuel + 1, list =>
    match list.nextiter with
    | none => .ok list
    | some rest => do
      let more ← wantsMore iters list rest ask
      if more then
        let list ← gimmeRound iters fuel list rest ask
        gimme iters ask fuel list
      else .ok list

inductive Request where
  | gimme (ask : Ask)
  | shift
  | munch (n : Int)
  | atPos (pos : Nat)
  deriving DecidableEq, Repr

/-- What a request returns; `nothing` is `Nil`, or the failure of `shift`. -/
inductive Reply (V I : Type) where
  | count (n : Nat)
  | element (x : Item V I)
  | parcel (storage : List (Item V I))
  | nothing

/-- `shift`, when an element has been reified. -/
def shiftItem (list : LazyList V I) : Reply V I × LazyList V I :=
  match list.items with
  | [] => (.nothing, list)
  | x :: items => (.element x, { list with items })

def serve (iters : Iterators V I) (fuel : Nat) (list : LazyList V I) :
    Request → Except Failure (Reply V I × LazyList V I)
  | .gimme ask => do
    let list ← gimme iters ask fuel list
    .ok (.count list.items.length, list)
  | .shift => do
    let list ← if 0 < list.items.length then .ok list else gimme iters (.count 1) fuel list
    .ok (shiftItem list)
  | .munch n => do
    let n := max n 0
    if list.items.length < n then
      let list ← gimme iters (.count n) fuel list
      .ok (.parcel list.items, { list with items := [] })
    else .ok (.parcel (list.items.take n.toNat), { list with items := list.items.drop n.toNat })
  | .atPos pos => do
    let list ← gimme iters (.count (pos + 1)) fuel list
    match list.items[pos]? with
    | some x => .ok (.element x, list)
    | none => .ok (.nothing, list)

end RakudoStar.Lazy

namespace RakudoStar.Lazy

variable (iters : Iterators V I) (flattens : Bool)

/-- What stands for other elements, or for none. -/
def Item.expands : Item V I → Bool
  | .iterable _ => true
  | .typeObject .nil => true
  | .parcel _ => flattens
  | _ => false

/-- The flattened list, where iterators stand for the same elements always. -/
inductive Flattens : List (Item V I) → List (Item V I) → Prop
  | nil : Flattens [] []
  | element {x rest out} : x.expands flattens = false → Flattens rest out →
      Flattens (x :: rest) (x :: out)
  | nothing {rest out} : Flattens rest out → Flattens (.typeObject .nil :: rest) out
  | parcel {storage rest out} : flattens = true → Flattens (storage ++ rest) out →
      Flattens (.parcel storage :: rest) out
  | iterable {i rest out} : (∀ ask : Ask, ask.Wants → Flattens (iters.reify i ask ++ rest) out) →
      Flattens (.iterable i :: rest) out

variable {iters flattens}

variable (flattens)

/-- What is not moved as it is. -/
def Item.stops (x : Item V I) : Bool := x.isIterable || (flattens && x.isParcel)

variable {flattens}

theorem findIdx_take_findIdx {A : Type} (first second : A → Bool) (l : List A) :
    (l.take (l.findIdx first)).findIdx second = l.findIdx fun x => first x || second x := by
  induction l with
  | nil => rfl
  | cons x l ih =>
    rw [List.findIdx_cons, List.findIdx_cons]
    cases first x with
    | true => rfl
    | false =>
      rw [Bool.false_or, cond_false, List.take_succ_cons, List.findIdx_cons, ih]

theorem nextIndex_eq (rest : List (Item V I)) (count : Nat) :
    nextIndex flattens rest count = (rest.take count).findIdx (Item.stops flattens) := by
  rw [nextIndex]
  cases flattens with
  | false =>
    have same : (Item.stops false : Item V I → Bool) = Item.isIterable :=
      funext fun x => Bool.or_false _
    rw [same]
    rfl
  | true =>
    have below : rpaFindType rest Item.isIterable count ≤ count :=
      Nat.le_trans List.findIdx_le_length (List.length_take_le _ _)
    have window : rest.take (rpaFindType rest Item.isIterable count) =
        (rest.take count).take ((rest.take count).findIdx Item.isIterable) := by
      rw [List.take_take]
      exact congrArg (List.take · rest) (Nat.min_eq_left below).symm
    rw [if_pos rfl, rpaFindType, window, findIdx_take_findIdx]
    rfl

theorem nextIndex_append {front : List (Item V I)} (plain : ∀ x ∈ front, x.stops flattens = false)
    {tail : List (Item V I)} (tailStops : ∀ x ∈ tail.head?, x.stops flattens = true)
    (count : Nat) : nextIndex flattens (front ++ tail) count = min count front.length := by
  rw [nextIndex_eq]
  induction front generalizing count with
  | nil =>
    cases tail with
    | nil => simp
    | cons x tail =>
      have stops := tailStops x rfl
      cases count with
      | zero => rfl
      | succ count =>
        rw [List.nil_append, List.take_succ_cons, List.findIdx_cons, stops]
        rfl
  | cons x front ih =>
    cases count with
    | zero => exact (Nat.zero_min _).symm
    | succ count =>
      have notStops := plain x List.mem_cons_self
      rw [List.cons_append, List.take_succ_cons, List.findIdx_cons, notStops, cond_false,
        ih (List.forall_mem_cons.mp plain).2, List.length_cons, Nat.succ_min_succ]

variable (iters flattens)

/-- The flattened list, a stretch of elements that are moved as they are at a time. -/
inductive Stretches : List (Item V I) → List (Item V I) → Prop
  | last {front} : (∀ x ∈ front, x.stops flattens = false) → Stretches front front
  | typeObject {front type rest out} : (∀ x ∈ front, x.stops flattens = false) →
      Item.stops flattens (V := V) (I := I) (.typeObject type) = true → type ≠ .nil →
      Stretches rest out →
      Stretches (front ++ .typeObject type :: rest) (front ++ .typeObject type :: out)
  | nothing {front rest out} : (∀ x ∈ front, x.stops flattens = false) → Stretches rest out →
      Stretches (front ++ .typeObject .nil :: rest) (front ++ out)
  | parcel {front storage rest out} : (∀ x ∈ front, x.stops flattens = false) →
      flattens = true → Stretches (storage ++ rest) out →
      Stretches (front ++ .parcel storage :: rest) (front ++ out)
  | iterable {front i rest out} : (∀ x ∈ front, x.stops flattens = false) →
      (∀ ask : Ask, ask.Wants → Stretches (iters.reify i ask ++ rest) out) →
      Stretches (front ++ .iterable i :: rest) (front ++ out)

variable {iters flattens} {rest out : List (Item V I)} {x : Item V I}

theorem Stretches.cons (plain : x.stops flattens = false)
    (stretches : Stretches iters flattens rest out) :
    Stretches iters flattens (x :: rest) (x :: out) := by
  have longer : ∀ {front : List (Item V I)}, (∀ y ∈ front, y.stops flattens = false) →
      ∀ y ∈ x :: front, y.stops flattens = false := by
    intro front frontPlain y mem
    rcases List.mem_cons.mp mem with rfl | later
    · exact plain
    · exact frontPlain y later
  cases stretches with
  | last frontPlain => exact .last (longer frontPlain)
  | typeObject frontPlain stops notNil later =>
    exact .typeObject (longer frontPlain) stops notNil later
  | nothing frontPlain later => exact .nothing (longer frontPlain) later
  | parcel frontPlain isFlat later => exact .parcel (longer frontPlain) isFlat later
  | iterable frontPlain later => exact .iterable (longer frontPlain) later

theorem Item.typeObject_of_stops (plain : x.expands flattens = false)
    (stops : x.stops flattens = true) : ∃ type, x = .typeObject type ∧ type ≠ .nil := by
  cases x with
  | typeObject type =>
    refine ⟨type, rfl, ?_⟩
    rintro rfl
    cases plain
  | iterable i => cases plain
  | parcel storage =>
    rw [Item.expands] at plain
    rw [plain] at stops
    cases stops
  | value v | container contents =>
    cases flattens <;> cases stops

theorem Flattens.stretches
    (isFlat : Flattens iters flattens rest out) : Stretches iters flattens rest out := by
  have none : ∀ x ∈ ([] : List (Item V I)), x.stops flattens = false := nofun
  induction isFlat with
  | nil => exact .last none
  | @element x rest out plain _ ih =>
    cases stops : x.stops flattens with
    | true =>
      rcases Item.typeObject_of_stops plain stops with ⟨type, rfl, notNil⟩
      exact .typeObject none stops notNil ih
    | false => exact ih.cons stops
  | nothing _ ih => exact .nothing none ih
  | parcel isFlat _ ih => exact .parcel none isFlat ih
  | iterable _ ih => exact .iterable none ih

theorem Item.not_expands (plain : x.stops flattens = false) : x.expands flattens = false := by
  cases x with
  | typeObject type =>
    cases type with
    | nil => cases plain
    | iterable | parcel | other => rfl
  | iterable i => cases plain
  | parcel storage => exact (Bool.and_true flattens).symm.trans plain
  | value | container => rfl

theorem Flattens.append_plain {front : List (Item V I)}
    (plain : ∀ x ∈ front, x.stops flattens = false) (later : Flattens iters flattens rest out) :
    Flattens iters flattens (front ++ rest) (front ++ out) := by
  induction front with
  | nil => exact later
  | cons x front ih =>
    rcases List.forall_mem_cons.mp plain with ⟨first, others⟩
    exact .element (Item.not_expands first) (ih others)

theorem Stretches.isFlat
    (stretches : Stretches iters flattens rest out) : Flattens iters flattens rest out := by
  induction stretches with
  | @last front plain =>
    have moved : Flattens iters flattens (front ++ []) (front ++ []) := .append_plain plain .nil
    rw [List.append_nil] at moved
    exact moved
  | @typeObject front type rest out plain _ notNil _ ih =>
    refine .append_plain plain (.element ?_ ih)
    cases type with
    | nil => exact absurd rfl notNil
    | iterable | parcel | other => rfl
  | nothing plain _ ih => exact .append_plain plain (.nothing ih)
  | parcel plain isFlat _ ih =>
    exact .append_plain plain (.parcel isFlat ih)
  | iterable plain _ ih =>
    exact .append_plain plain (.iterable ih)

end RakudoStar.Lazy
