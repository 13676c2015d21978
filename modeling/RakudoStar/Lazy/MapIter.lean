import RakudoStar.Lazy.Serving

/-!
# Map iterators

A `MapIter` collects the reified elements, calls its block on as many as it takes, and leaves
the rest to the next `MapIter`.
-/

namespace RakudoStar.Lazy

open List RakudoStar.Except

variable {V I R A : Type}

/-- A `MapIter` between two calls; `blockCount` is what `count` of its block returns. -/
structure MapIter (V I : Type) where
  items : List (Item V I)
  listiter : Option (List (Item V I))
  blockCount : Int
  flattens : Bool

namespace MapIter

/-- The number of elements for a call of the block. -/
def argc (iter : MapIter V I) : Nat := (max iter.blockCount 1).toNat

/-- `$!listiter.reify`, which comes back as `MapIter.REIFY`. -/
def fill (iters : Iterators V I) (fuel : Nat) (iter : MapIter V I) (ask : Ask) :
    Except Failure (MapIter V I) :=
  match iter.listiter with
  | none => .ok iter
  | some rest => do
    let (parcel, rest) ← Lazy.reify iters iter.flattens false fuel rest ask
    .ok { iter with items := iter.items ++ parcel, listiter := nextIter rest }

/-- The elements for a call of the block. -/
def fillUp (iters : Iterators V I) (fuel : Nat) (iter : MapIter V I) :
    Except Failure (MapIter V I) :=
  if iter.items.length < iter.argc then
    iter.fill iters fuel (.count (iter.argc - iter.items.length))
  else .ok iter

/-- The loop `iter_loop`. -/
def loop (iters : Iterators V I) (block : List (Item V I) → R) (count : Int) :
    Nat → List R → MapIter V I → Except Failure (List R × MapIter V I)
  | 0, _, _ => .error .outOfFuel
  | fuel + 1, rpa, iter =>
    if rpa.length < count then do
      let iter ← iter.fillUp iters fuel
      let args := iter.items.take iter.argc
      let iter := { iter with items := iter.items.drop iter.argc }
      if args = [] then .ok (rpa, iter)
      else loop iters block count fuel (rpa ++ [block args]) iter
    else .ok (rpa, iter)

/-- The elements that are reified in advance when everything is asked for. -/
def fillEager (iters : Iterators V I) (fuel : Nat) (iter : MapIter V I) :
    Ask → Except Failure (MapIter V I)
  | .whatever =>
    if iter.items.length < iter.argc then iter.fill iters fuel .whatever else .ok iter
  | .count _ => .ok iter

/-- How often the block is called at most. -/
def calls (iter : MapIter V I) : Ask → Int
  | .whatever => min (max (iter.items.length / iter.argc) 1) 100000
  | .count n => n

/-- `MapIter.reify`: the parcel, without the next iterator, and the next iterator. -/
def reify (iters : Iterators V I) (block : List (Item V I) → R) (fuel : Nat)
    (iter : MapIter V I) (ask : Ask) : Except Failure (List R × Option (MapIter V I)) := do
  let iter ← iter.fillEager iters fuel ask
  let (rpa, iter) ← loop iters block (iter.calls ask) fuel [] iter
  if iter.items.isEmpty && iter.listiter.isNone then .ok (rpa, none) else .ok (rpa, some iter)

end MapIter

/-- The groups of `argc` elements in front of a sequence, and what they leave. -/
inductive Groups {A : Type} (argc : Nat) : List A → List (List A) → List A → Prop
  | none {seq} : Groups argc seq [] seq
  | full {group seq groups left} : group.length = argc → Groups argc seq groups left →
      Groups argc (group ++ seq) (group :: groups) left
  | last {group} : group ≠ [] → group.length < argc → Groups argc group [group] []

theorem Groups.of_nil {argc : Nat} (positive : 0 < argc) {groups : List (List A)}
    {left : List A} (grouped : Groups argc [] groups left) : groups = [] ∧ left = [] := by
  generalize ended : ([] : List A) = seq at grouped
  cases grouped with
  | none => exact ⟨rfl, rfl⟩
  | full size _ =>
    rw [(append_eq_nil_iff.mp ended.symm).1] at size
    exact absurd size (Nat.ne_of_lt positive)
  | last notEmpty _ => exact absurd ended.symm notEmpty

theorem Groups.append {argc : Nat} (positive : 0 < argc) {seq middle left : List A}
    {first second : List (List A)} (front : Groups argc seq first middle)
    (back : Groups argc middle second left) : Groups argc seq (first ++ second) left := by
  induction front with
  | none => exact back
  | full size _ ih => exact .full size (ih back)
  | last notEmpty short =>
    rcases back.of_nil positive with ⟨rfl, rfl⟩
    exact .last notEmpty short

namespace MapIter

variable {iters : Iterators V I}

variable (iters) in
/-- The elements for which the block has not been called. -/
def Holds (iter : MapIter V I) (seq : List (Item V I)) : Prop :=
  ({ items := iter.items, nextiter := iter.listiter, flattens := iter.flattens,
     isLoL := false } : LazyList V I).Holds iters seq

variable {iter : MapIter V I} {seq : List (Item V I)} (block : List (Item V I) → R)

/-- How often a call of `reify` calls the block at least, if there are elements left. -/
def least : Ask → Nat
  | .whatever => 1
  | .count n => n.toNat

end MapIter

/-- A `MapIter` over three values, with a block for two. -/
def pairs : MapIter Nat Empty :=
  { items := [], listiter := some [.value 1, .value 2, .value 3], blockCount := 2,
    flattens := false }

end RakudoStar.Lazy
