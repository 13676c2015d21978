import Mathlib.Data.List.Lex

/-!
# Odometers

A list of digits of any type, the most significant first, of which one is turned on and those
behind it wrap around.
-/

namespace RakudoStar.Odometer

open List

variable {A : Type*} {next prev : A → A} {wraps wrapsBack : A → Prop} {before after low : List A}
  {digit : A}

/-- The last digit that does not wrap around is turned on, and those behind it wrap around. -/
inductive Turns (next : A → A) (wraps : A → Prop) : List A → List A → Prop
  | intro (high : List A) {digit : A} {low : List A} (stays : ¬ wraps digit)
      (wrap : ∀ a ∈ low, wraps a) :
      Turns next wraps (high ++ digit :: low) (high ++ next digit :: low.map next)

theorem Turns.length_eq (turns : Turns next wraps before after) : after.length = before.length := by
  obtain ⟨high, stays, wrap⟩ := turns
  simp

theorem Turns.back (high : List A) (stays : ¬ wraps digit) (wrap : ∀ a ∈ low, wraps a)
    (inverse : ∀ a ∈ digit :: low, prev (next a) = a ∧ (wraps a ↔ wrapsBack (next a))) :
    Turns prev wrapsBack (high ++ next digit :: low.map next) (high ++ digit :: low) := by
  have digitBack := inverse digit mem_cons_self
  have lowBack : (low.map next).map prev = low := by
    rw [map_map]
    refine (map_congr_left fun a member => ?_).trans (map_id low)
    exact (inverse a (mem_cons_of_mem digit member)).1
  have back : Turns prev wrapsBack (high ++ next digit :: low.map next)
      (high ++ prev (next digit) :: (low.map next).map prev) := by
    refine .intro high (fun wrapped => stays (digitBack.2.mpr wrapped)) ?_
    intro b member
    obtain ⟨a, inLow, rfl⟩ := mem_map.mp member
    exact (inverse a (mem_cons_of_mem digit inLow)).2.mp (wrap a inLow)
  rwa [digitBack.1, lowBack] at back

theorem turned_unique {high high' low' : List A} {digit' : A}
    (same : high ++ digit :: low = high' ++ digit' :: low') (stays : ¬ wraps digit)
    (wrap : ∀ a ∈ low, wraps a) (stays' : ¬ wraps digit') (wrap' : ∀ a ∈ low', wraps a) :
    high = high' ∧ digit = digit' ∧ low = low' := by
  rcases append_eq_append_iff.mp same with ⟨between, rfl, rest⟩ | ⟨between, rfl, rest⟩
  · cases between with
    | nil =>
      obtain ⟨rfl, rfl⟩ := List.cons.inj rest
      simp
    | cons first between =>
      obtain ⟨_, rfl⟩ := List.cons.inj rest
      exact absurd (wrap digit' (by simp)) stays'
  cases between with
  | nil =>
    obtain ⟨rfl, rfl⟩ := List.cons.inj rest
    simp
  | cons first between =>
    obtain ⟨_, rfl⟩ := List.cons.inj rest
    exact absurd (wrap' digit (by simp)) stays

section

variable (turns : Turns next wraps before after)

include turns

theorem Turns.unique {after' : List A}
    (turns' : Turns next wraps before after') : after = after' := by
  obtain ⟨high, stays, wrap⟩ := turns
  next digit low =>
  generalize beforeEq : high ++ digit :: low = before at turns'
  obtain ⟨high', stays', wrap'⟩ := turns'
  obtain ⟨rfl, rfl, rfl⟩ := turned_unique beforeEq stays wrap stays' wrap'
  rfl

theorem Turns.not_all_wrap : ¬ ∀ a ∈ before, wraps a := by
  obtain ⟨high, stays, wrap⟩ := turns
  exact fun all => stays (all _ (by simp))

theorem Turns.concat {a : A} (wrapped : wraps a) :
    Turns next wraps (before ++ [a]) (after ++ [next a]) := by
  obtain ⟨high, stays, wrap⟩ := turns
  next digit low =>
  have wrap' : ∀ b ∈ low ++ [a], wraps b := by
    intro b member
    rcases mem_append.mp member with inLow | isLast
    · exact wrap b inLow
    · rwa [mem_singleton.mp isLast]
  have longer : Turns next wraps (high ++ digit :: (low ++ [a]))
      (high ++ next digit :: (low ++ [a]).map next) := .intro high stays wrap'
  rwa [map_append, map_singleton, ← cons_append, ← append_assoc,
    ← cons_append, ← append_assoc] at longer

/-- A digit that is turned on grows, and with it the list, whatever is behind it. -/
theorem Turns.lex [LT A] (grows : ∀ a ∈ before, ¬ wraps a → a < next a) (back : List A) :
    List.Lex (· < ·) (before ++ back) (after ++ back) := by
  obtain ⟨high, stays, wrap⟩ := turns
  next digit low =>
  have rel : List.Lex (· < ·) (digit :: (low ++ back)) (next digit :: (low.map next ++ back)) :=
    .rel (grows digit (by simp) stays)
  rw [append_assoc, append_assoc]
  exact List.Lex.append_left _ rel high

end

end RakudoStar.Odometer
