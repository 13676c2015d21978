import Mathlib.Tactic.Basic

/-!
# Computations that may fail

Inversion rules for sequencing in `Except`, which peel a successful computation apart without
unfolding the monad.
-/

namespace RakudoStar.Except

universe u v

variable {ε : Type u} {α β : Type v} {first : Except ε α} {next : α → Except ε β} {f : α → β}
  {result : β}

theorem bind_eq_ok_iff : (first >>= next) = .ok result ↔
      ∃ middle, first = .ok middle ∧ next middle = .ok result := by
  cases first with
  | error failure =>
    constructor
    · nofun
    · rintro ⟨middle, impossible, _⟩
      cases impossible
  | ok value =>
    constructor
    · intro bound
      exact ⟨value, rfl, bound⟩
    rintro ⟨middle, equal, continued⟩
    cases equal
    exact continued

theorem of_bind (ran : (first >>= next) = .ok result) :
    ∃ middle, first = .ok middle ∧ next middle = .ok result :=
  bind_eq_ok_iff.mp ran

theorem check_bind_eq_ok_iff {β : Type} {first : Except ε Unit}
    {next : Unit → Except ε β} {result : β} :
    (first >>= next) = .ok result ↔ first = .ok () ∧ next () = .ok result := by
  rw [bind_eq_ok_iff]
  constructor
  · rintro ⟨⟨⟩, checked, continued⟩
    exact ⟨checked, continued⟩
  · rintro ⟨checked, continued⟩
    exact ⟨(), checked, continued⟩

theorem map_eq_ok_iff :
    first.map f = .ok result ↔ ∃ middle, first = .ok middle ∧ f middle = result := by
  cases first <;> simp [Except.map]

theorem mapError_eq_ok_iff {δ : Type u} {f : ε → δ} {result : α} :
    first.mapError f = .ok result ↔ first = .ok result := by
  cases first with
  | error failure =>
    constructor
    · nofun
    · nofun
  | ok value =>
    constructor
    · intro equal
      cases equal
      rfl
    intro equal
    cases equal
    rfl

@[simp]
theorem ok_bind (value : α) (next : α → Except ε β) :
    ((Except.ok value : Except ε α) >>= next) = next value :=
  rfl

@[simp]
theorem error_bind (failure : ε) (next : α → Except ε β) :
    ((Except.error failure : Except ε α) >>= next) = .error failure :=
  rfl

/-- What a computation comes to, and the failures that may end it. -/
def Ends (allowed : ε → Prop) (post : α → Prop) : Except ε α → Prop
  | .ok value => post value
  | .error failure => allowed failure

theorem Ends.bind {allowed : ε → Prop} {post : α → Prop} {later : β → Prop}
    (ends : Ends allowed post first)
    (rest : ∀ value, post value → Ends allowed later (next value)) :
    Ends allowed later (first >>= next) := by
  cases first with
  | ok value => exact rest value ends
  | error failure => exact ends

end RakudoStar.Except
