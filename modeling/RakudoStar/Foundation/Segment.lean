import Mathlib.Data.List.Basic

/-!
# Linked segments

The links of a linked structure from one link visit a list of cells and arrive at another. A
link to the cell `c` is written `ref c`, so that a segment may mix links spelled differently.
-/

namespace RakudoStar.Foundation

universe u v

variable {C : Type u} {R : Type v}

/-- Following `next` from `start` visits exactly `cells`, in this order, and
ends at the link `finish`. -/
def Segment (ref : C → R) (next : C → Option R) : Option R → List C → Option R → Prop
  | start, [], finish => start = finish
  | start, cell :: cells, finish =>
    start = some (ref cell) ∧ Segment ref next (next cell) cells finish

namespace Segment

variable {ref ref' : C → R} {next next' : C → Option R}

@[simp]
theorem nil_iff (start finish : Option R) :
    Segment ref next start [] finish ↔ start = finish := Iff.rfl

theorem congr {start finish : Option R} {cells : List C}
    (refEq : ∀ cell ∈ cells, ref cell = ref' cell) (nextEq : ∀ cell ∈ cells, next cell = next' cell)
    (segment : Segment ref next start cells finish) : Segment ref' next' start cells finish := by
  induction cells generalizing start with
  | nil => exact segment
  | cons cell cells ih =>
    rcases segment with ⟨startEq, rest⟩
    constructor
    · rw [startEq, refEq cell (List.mem_cons_self ..)]
    rw [← nextEq cell (List.mem_cons_self ..)]
    exact ih
      (List.forall_mem_cons.mp refEq).2
      (List.forall_mem_cons.mp nextEq).2 rest

end Segment

end RakudoStar.Foundation
