import Mathlib.Tactic.Basic

/-!
# Loops that may fail

A `while` loop whose body goes round again, leaves the loop or fails. The body lowers a measure,
so the loop is run by recursion on a bound of it and needs no fuel.
-/

namespace RakudoStar.Loop

universe u v w

/-- What one round of a loop body does. -/
inductive Iteration (σ : Type u) (ρ : Type v)
  | again (state : σ)
  | leave (result : ρ)

variable {σ : Type u} {ρ : Type v} {ε : Type w}

/-- Every round that goes on lowers the measure. -/
def Decreases (body : σ → Except ε (Iteration σ ρ)) (measure : σ → Nat) : Prop :=
  ∀ state next, body state = .ok (.again next) → measure next < measure state

/-- Run a loop from a state whose measure is below the bound. -/
def runWithin (body : σ → Except ε (Iteration σ ρ)) (measure : σ → Nat)
    (decreases : Decreases body measure) :
    (bound : Nat) → (state : σ) → measure state < bound → Except ε ρ
  | 0, _, below => absurd below (Nat.not_lt_zero _)
  | bound + 1, state, below =>
    match round : body state with
    | .error failure => .error failure
    | .ok (.leave result) => .ok result
    | .ok (.again next) =>
      runWithin body measure decreases bound next
        (Nat.lt_of_lt_of_le (decreases state next round) (Nat.le_of_lt_succ below))

/-- Run a loop to its end. -/
def run (body : σ → Except ε (Iteration σ ρ)) (measure : σ → Nat)
    (decreases : Decreases body measure) (state : σ) : Except ε ρ :=
  runWithin body measure decreases (measure state + 1) state (Nat.lt_succ_self _)

variable {body : σ → Except ε (Iteration σ ρ)} {measure : σ → Nat}
  {decreases : Decreases body measure} {state : σ}

/-- The bound decides nothing but termination. -/
theorem runWithin_eq (first second : Nat) (state : σ) (belowFirst : measure state < first)
    (belowSecond : measure state < second) :
    runWithin body measure decreases first state belowFirst =
      runWithin body measure decreases second state belowSecond := by
  induction first generalizing second state with
  | zero => exact absurd belowFirst (Nat.not_lt_zero _)
  | succ first ih =>
    cases second with
    | zero => exact absurd belowSecond (Nat.not_lt_zero _)
    | succ second =>
      simp only [runWithin]
      split
      · rfl
      · rfl
      · exact ih _ _ _ _

theorem run_leave {result : ρ} (round : body state = .ok (.leave result)) :
    run body measure decreases state = .ok result := by
  unfold run runWithin
  split
  · rename_i failure failed
    rw [round] at failed
    cases failed
  · rename_i other left
    rw [round] at left
    cases left
    rfl
  · rename_i next went
    rw [round] at went
    cases went

theorem run_error {failure : ε} (round : body state = .error failure) :
    run body measure decreases state = .error failure := by
  unfold run runWithin
  split
  · rename_i other failed
    rw [round] at failed
    cases failed
    rfl
  · rename_i result left
    rw [round] at left
    cases left
  · rename_i next went
    rw [round] at went
    cases went

theorem run_again {next : σ} (round : body state = .ok (.again next)) :
    run body measure decreases state = run body measure decreases next := by
  unfold run
  rw [runWithin]
  split
  · rename_i failure failed
    rw [round] at failed
    cases failed
  · rename_i result left
    rw [round] at left
    cases left
  rename_i other went
  rw [round] at went
  cases went
  exact runWithin_eq _ _ _ _ _

end RakudoStar.Loop
