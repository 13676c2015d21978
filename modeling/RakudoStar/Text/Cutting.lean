import Mathlib.Data.List.Induction
import Mathlib.Logic.Relation
import RakudoStar.Text.Trans

/-!
# Cutting a text into pieces

What `trans` is for: left to right, the longest match at the leftmost position is replaced. The
loop does this, and ends, exactly if no empty match holds it up.
-/

namespace RakudoStar.Text

open List Option

variable {W : Type}

section

variable (source : List Nat) (index : Nat)

/-- A literal key matches wherever it occurs, a regex at its own leftmost match. -/
def Matches : Key → Nat → Nat → Prop
  | .cool text, pos, length =>
    index ≤ pos ∧ pos ≤ source.length ∧ text <+: source.drop pos ∧ length = text.length
  | .regex key, pos, length =>
    ∃ start stop, key.find (source.drop index) = some (start, stop) ∧ pos = index + start ∧
      length = stop - start

/-- A match is further to the left, or longer at the same position. -/
def Beats (pos length pos' length' : Nat) : Prop := pos < pos' ∨ pos = pos' ∧ length' < length

/-- The longest match at the leftmost position; the first key wins ties. -/
structure Best (substitutions : List (Substitution W)) (substitution : Substitution W)
    (pos length : Nat) : Prop where
  isMatch : Matches source index substitution.key pos length
  first : ∃ before after, substitutions = before ++ substitution :: after ∧
    (∀ other ∈ before, ∀ pos' length', Matches source index other.key pos' length' →
      Beats pos length pos' length') ∧
    ∀ other ∈ substitution :: after, ∀ pos' length', Matches source index other.key pos' length' →
      ¬ Beats pos' length' pos length

end

variable {source : List Nat} {index : Nat} {substitutions before : List (Substitution W)}
  {substitution : Substitution W} {pos length pos' length' : Nat} {key : Key}
  {needle : List Nat} {start lsm : Lsm W}

theorem Matches.bounds (isMatch : Matches source index key pos length)
    (inside : index ≤ source.length) : index ≤ pos ∧ pos + length ≤ source.length := by
  cases key with
  | cool text =>
    obtain ⟨behind, bounded, isPrefix, rfl⟩ := isMatch
    have shorter := isPrefix.length_le
    rw [length_drop] at shorter
    omega
  | regex key =>
    obtain ⟨start, stop, found, rfl, rfl⟩ := isMatch
    have within := key.within _ _ _ found
    rw [length_drop] at within
    omega

theorem Best.keep (best : Best source index before substitution pos length)
    {other : Substitution W} (notBetter : ∀ pos' length',
      Matches source index other.key pos' length' → ¬ Beats pos' length' pos length) :
    Best source index (before ++ [other]) substitution pos length := by
  obtain ⟨isMatch, front, back, rfl, inFront, inBack⟩ := best
  refine ⟨isMatch, front, back ++ [other], by simp, inFront, ?_⟩
  intro other' member
  rcases mem_append.mp (cons_append ▸ member :
    other' ∈ (substitution :: back) ++ [other]) with old | new
  · exact inBack other' old
  · rw [mem_singleton.mp new]
    exact notBetter

theorem Best.new (isMatch : Matches source index substitution.key pos length)
    (leftmost : ∀ pos' length', Matches source index substitution.key pos' length' →
      ¬ Beats pos' length' pos length)
    (better : ∀ other ∈ before, ∀ pos' length', Matches source index other.key pos' length' →
      Beats pos length pos' length') :
    Best source index (before ++ [substitution]) substitution pos length := by
  refine ⟨isMatch, before, [], rfl, better, ?_⟩
  intro other member
  rw [mem_singleton.mp member]
  exact leftmost

section
variable (best : Best source index substitutions substitution pos length)
  {other : Substitution W}
include best

theorem Best.not_beaten (member : other ∈ substitutions)
    (isMatch : Matches source index other.key pos' length') : ¬ Beats pos' length' pos length := by
  obtain ⟨_, front, back, rfl, inFront, inBack⟩ := best
  rcases mem_append.mp member with old | new
  · have beats := inFront other old _ _ isMatch
    unfold Beats at beats ⊢
    omega
  · exact inBack other new _ _ isMatch

theorem Best.mem : substitution ∈ substitutions := by
  obtain ⟨_, front, back, rfl, _⟩ := best
  simp

theorem Best.unique (best' : Best source index substitutions other pos' length') :
    substitution = other ∧ pos = pos' ∧ length = length' := by
  have same : pos = pos' ∧ length = length' := by
    have notBeaten := best.not_beaten best'.mem best'.isMatch
    have notBeaten' := best'.not_beaten best.mem best.isMatch
    unfold Beats at notBeaten notBeaten'
    omega
  obtain ⟨rfl, rfl⟩ := same
  refine ⟨?_, rfl, rfl⟩
  obtain ⟨isMatch, front, back, split, inFront, _⟩ := best
  obtain ⟨isMatch', front', back', split', inFront', _⟩ := best'
  have irreflexive : ¬ Beats pos length pos length := by
    unfold Beats
    omega
  rcases append_eq_append_iff.mp (split.symm.trans split') with
    ⟨between, rfl, tail⟩ | ⟨between, rfl, tail⟩
  · cases between with
    | nil => exact (List.cons.inj tail).1
    | cons first between =>
      obtain ⟨rfl, _⟩ := List.cons.inj tail
      exact absurd (inFront' substitution (by simp) _ _ isMatch) irreflexive
  cases between with
  | nil => exact (List.cons.inj tail).1.symm
  | cons first between =>
    obtain ⟨rfl, _⟩ := List.cons.inj tail
    exact absurd (inFront other (by simp) _ _ isMatch') irreflexive

end

def Key.firstMatch (source : List Nat) (index : Nat) : Key → Option (Nat × Nat)
  | .cool text => (Text.index source text index).map fun pos => (pos, text.length)
  | .regex key =>
    (key.find (source.drop index)).map fun found => (index + found.1, found.2 - found.1)

theorem index_eq_some (inside : index ≤ source.length)
    (found : Text.index source needle index = some pos) :
    Matches source index (.cool needle) pos needle.length ∧
      ∀ pos' length', Matches source index (.cool needle) pos' length' → pos ≤ pos' := by
  rw [Text.index] at found
  split at found
  · next empty =>
      obtain rfl : min index source.length = pos := Option.some.inj found
      rw [Nat.min_eq_left inside, empty]
      exact ⟨⟨Nat.le_refl _, inside, nil_prefix, rfl⟩, fun _ _ isMatch => isMatch.1⟩
  next nonempty =>
    obtain ⟨holds, inRange, none⟩ := find?_range_eq_some.mp found
    rw [Bool.and_eq_true, decide_eq_true_iff, isPrefixOf_iff_prefix] at holds
    refine ⟨⟨holds.1, Nat.le_of_lt (mem_range.mp inRange), holds.2, rfl⟩, ?_⟩
    rintro pos' _ ⟨behind, _, isPrefix, _⟩
    by_contra less
    have passed := none pos' (Nat.not_le.mp less)
    rw [decide_eq_true behind, isPrefixOf_iff_prefix.mpr isPrefix] at passed
    cases passed

theorem index_eq_none (found : Text.index source needle index = none) :
    ¬ Matches source index (.cool needle) pos length := by
  rw [Text.index] at found
  split at found
  · cases found
  next nonempty =>
    rintro ⟨behind, bounded, isPrefix, _⟩
    have inRange : pos < source.length := by
      by_contra outside
      rw [drop_eq_nil_of_le (Nat.not_lt.mp outside), prefix_nil] at isPrefix
      exact nonempty isPrefix
    have passed := find?_range_eq_none.mp found pos inRange
    rw [decide_eq_true behind, isPrefixOf_iff_prefix.mpr isPrefix] at passed
    cases passed

theorem firstMatch_eq_some (inside : index ≤ source.length)
    (found : key.firstMatch source index = some (pos, length)) :
    Matches source index key pos length ∧
      ∀ pos' length', Matches source index key pos' length' → ¬ Beats pos' length' pos length := by
  cases key with
  | cool text =>
    obtain ⟨pos, isIndex, same⟩ := map_eq_some_iff.mp found
    obtain ⟨rfl, rfl⟩ := Prod.mk.inj same
    obtain ⟨isMatch, leftmost⟩ := index_eq_some inside isIndex
    refine ⟨isMatch, fun pos' length' isMatch' => ?_⟩
    have further := leftmost pos' length' isMatch'
    obtain ⟨_, _, _, rfl⟩ := isMatch'
    unfold Beats
    omega
  | regex key =>
    obtain ⟨⟨start, stop⟩, isFound, same⟩ := map_eq_some_iff.mp found
    obtain ⟨rfl, rfl⟩ := Prod.mk.inj same
    refine ⟨⟨start, stop, isFound, rfl, rfl⟩, ?_⟩
    rintro _ _ ⟨start', stop', isFound', rfl, rfl⟩
    obtain ⟨rfl, rfl⟩ := Prod.mk.inj (some.inj (isFound.symm.trans isFound'))
    unfold Beats
    omega

theorem firstMatch_eq_none (found : key.firstMatch source index = none) :
    ¬ Matches source index key pos length := by
  cases key with
  | cool text => exact index_eq_none (map_eq_none_iff.mp found)
  | regex key =>
    rintro ⟨start, stop, isFound, _⟩
    rw [map_eq_none_iff.mp found] at isFound
    cases isFound

theorem exists_best (inside : index ≤ source.length) (substitutions : List (Substitution W)) :
    (∀ substitution ∈ substitutions, ∀ pos length,
      ¬ Matches source index substitution.key pos length) ∨
    ∃ substitution pos length, Best source index substitutions substitution pos length := by
  induction substitutions using List.reverseRecOn with
  | nil => exact .inl nofun
  | append_singleton before other ih =>
    cases found : other.key.firstMatch source index with
    | none =>
      rcases ih with none | ⟨substitution, pos, length, best⟩
      · refine .inl fun substitution member => ?_
        rcases mem_append.mp member with old | new
        · exact none substitution old
        · rw [mem_singleton.mp new]
          exact fun _ _ => firstMatch_eq_none found
      · exact .inr ⟨substitution, pos, length, best.keep fun _ _ isMatch =>
          absurd isMatch (firstMatch_eq_none found)⟩
    | some place =>
      obtain ⟨pos, length⟩ := place
      obtain ⟨isMatch, leftmost⟩ := firstMatch_eq_some inside found
      rcases ih with none | ⟨substitution, pos', length', best⟩
      · refine .inr ⟨other, pos, length, .new isMatch leftmost ?_⟩
        exact fun substitution member _ _ isMatch => absurd isMatch (none substitution member _ _)
      by_cases beats : Beats pos length pos' length'
      · refine .inr ⟨other, pos, length, .new isMatch leftmost ?_⟩
        intro substitution member _ _ isMatch'
        have notBeaten := best.not_beaten member isMatch'
        unfold Beats at beats notBeaten ⊢
        omega
      refine .inr ⟨substitution, pos', length', best.keep ?_⟩
      intro _ _ isMatch'
      have notLeft := leftmost _ _ isMatch'
      unfold Beats at beats notLeft ⊢
      omega

/-- Where the matcher stands after some of the substitutions. -/
inductive Tried (start : Lsm W) (before : List (Substitution W)) : Lsm W → Prop
  | nothing (none : ∀ other ∈ before, ∀ pos length,
      Matches start.source start.index other.key pos length → pos = start.source.length) :
      Tried start before start
  | chosen (substitution : Substitution W) (pos length : Nat)
      (before_end : pos < start.source.length)
      (best : Best start.source start.index before substitution pos length) : Tried start before
        { start with
          nextMatch := pos
          substitutionLength := some length
          nextSubstitution := some substitution }

theorem triage_eq (lsm : Lsm W) (substitution : Substitution W) :
    lsm.triageSubstitution substitution =
      match substitution.key.firstMatch lsm.source lsm.index with
      | none => lsm
      | some (pos, length) => lsm.compareSubstitution substitution pos length := by
  rw [Lsm.triageSubstitution]
  cases substitution.key with
  | cool text =>
    dsimp only [Key.firstMatch]
    cases Text.index lsm.source text lsm.index <;> rfl
  | regex key =>
    dsimp only [Key.firstMatch]
    cases key.find (lsm.source.drop lsm.index) <;> rfl

theorem Tried.triage (tried : Tried start before lsm)
    (inside : start.index ≤ start.source.length) (fresh : start.nextMatch = start.source.length)
    (substitution : Substitution W) :
    Tried start (before ++ [substitution]) (lsm.triageSubstitution substitution) := by
  rw [triage_eq]
  cases tried with
  | nothing none =>
    cases found : substitution.key.firstMatch start.source start.index with
    | none =>
      refine .nothing fun other member => ?_
      rcases mem_append.mp member with old | new
      · exact none other old
      · rw [mem_singleton.mp new]
        exact fun _ _ isMatch => absurd isMatch (firstMatch_eq_none found)
    | some place =>
      obtain ⟨pos, length⟩ := place
      obtain ⟨isMatch, leftmost⟩ := firstMatch_eq_some inside found
      have bounds := isMatch.bounds inside
      dsimp only
      by_cases atEnd : pos = start.source.length
      · rw [Lsm.compareSubstitution, if_neg (by omega)]
        refine .nothing fun other member => ?_
        rcases mem_append.mp member with old | new
        · exact none other old
        rw [mem_singleton.mp new]
        intro pos' length' isMatch'
        have notLeft := leftmost _ _ isMatch'
        have bounds' := isMatch'.bounds inside
        unfold Beats at notLeft
        omega
      rw [Lsm.compareSubstitution, if_pos (by omega)]
      refine .chosen substitution pos length (by omega) (.new isMatch leftmost ?_)
      intro other member pos' length' isMatch'
      have isEnd := none other member pos' length' isMatch'
      unfold Beats
      omega
  | chosen chosen pos' length' before_end best =>
    cases found : substitution.key.firstMatch start.source start.index with
    | none =>
      exact .chosen chosen pos' length' before_end (best.keep fun _ _ isMatch =>
        absurd isMatch (firstMatch_eq_none found))
    | some place =>
      obtain ⟨pos, length⟩ := place
      obtain ⟨isMatch, leftmost⟩ := firstMatch_eq_some inside found
      dsimp only
      by_cases beats : Beats pos length pos' length'
      · unfold Beats at beats
        rw [Lsm.compareSubstitution, if_pos (by simpa [eq_comm] using beats)]
        refine .chosen substitution pos length ?_ (.new isMatch leftmost ?_)
        · omega
        intro other member _ _ isMatch'
        have notBeaten := best.not_beaten member isMatch'
        unfold Beats at notBeaten ⊢
        omega
      unfold Beats at beats
      rw [Lsm.compareSubstitution, if_neg (by simpa [eq_comm] using beats)]
      refine .chosen chosen pos' length' before_end (best.keep ?_)
      intro _ _ isMatch'
      have notLeft := leftmost _ _ isMatch'
      unfold Beats at notLeft ⊢
      omega

theorem Tried.foldl (tried : Tried start before lsm)
    (inside : start.index ≤ start.source.length) (fresh : start.nextMatch = start.source.length)
    (later : List (Substitution W)) :
    Tried start (before ++ later) (later.foldl Lsm.triageSubstitution lsm) := by
  induction later generalizing before lsm with
  | nil =>
    rw [append_nil]
    exact tried
  | cons substitution later ih =>
    have next := ih (tried.triage inside fresh substitution)
    rwa [append_assoc, singleton_append] at next

/-- Between two steps: the source and the substitutions are the ones of the beginning. -/
structure Stands (source : List Nat) (substitutions : List (Substitution W)) (index : Nat)
    (lsm : Lsm W) : Prop where
  source_eq : lsm.source = source
  substitutions_eq : lsm.substitutions = substitutions
  index_eq : lsm.index = index
  inside : index ≤ source.length

variable {world : W}

section

theorem incrementIndex_of_match (isMatch : Matches lsm.source lsm.index key pos length) :
    lsm.incrementIndex key = { lsm with index := lsm.nextMatch + length } := by
  cases key with
  | cool text =>
    obtain ⟨_, _, _, rfl⟩ := isMatch
    rfl
  | regex key =>
    obtain ⟨start, stop, found, _, rfl⟩ := isMatch
    rw [Lsm.incrementIndex, found]
    rfl

theorem incrementIndex_keeps (lsm : Lsm W) (key : Key) :
    (lsm.incrementIndex key).nextMatch = lsm.nextMatch ∧
      (lsm.incrementIndex key).source = lsm.source ∧
      (lsm.incrementIndex key).unsubstitutedText = lsm.unsubstitutedText := by
  cases key with
  | cool text | regex key => exact ⟨rfl, rfl, rfl⟩

section
variable (stands : Stands source substitutions index lsm)
include stands

theorem Stands.tried : Tried { lsm with nextMatch := lsm.source.length } substitutions
      (substitutions.foldl Lsm.triageSubstitution { lsm with nextMatch := lsm.source.length }) := by
  have inside : lsm.index ≤ lsm.source.length := by
    rw [stands.source_eq, stands.index_eq]
    exact stands.inside
  have none : Tried { lsm with nextMatch := lsm.source.length } []
      { lsm with nextMatch := lsm.source.length } :=
    .nothing nofun
  exact none.foldl inside rfl substitutions

theorem Stands.step_of_best (best : Best source index substitutions substitution pos length)
    (before_end : pos < source.length) :
    ∃ lsm', lsm.step world = (true, lsm', (substitution.value.evaluate world).2) ∧
      Stands source substitutions (pos + length) lsm' ∧
      lsm'.unsubstitutedText = substr source index (pos - index) ∧
      lsm'.substitutedText = (substitution.value.evaluate world).1 := by
  have bounds := best.isMatch.bounds stands.inside
  obtain ⟨rfl, rfl, rfl, inside⟩ := stands
  have stands : Stands lsm.source lsm.substitutions lsm.index lsm := ⟨rfl, rfl, rfl, inside⟩
  have tried := stands.tried
  generalize triedEq : lsm.substitutions.foldl Lsm.triageSubstitution
    { lsm with nextMatch := lsm.source.length } = after at tried
  cases tried with
  | nothing none =>
    have atEnd : pos = lsm.source.length := none substitution best.mem pos length best.isMatch
    omega
  | chosen other pos' length' _ best' =>
    obtain ⟨rfl, rfl, rfl⟩ := best.unique best'
    rw [Lsm.step]
    rw [triedEq]
    dsimp only
    have increment := @incrementIndex_of_match W pos length substitution.key
      { lsm with
        nextMatch := pos
        substitutionLength := some length
        nextSubstitution := some substitution
        unsubstitutedText := substr lsm.source lsm.index (pos - lsm.index)
        substitutedText := (substitution.value.evaluate world).1 } best.isMatch
    rw [increment]
    exact ⟨_, Prod.ext (decide_eq_true before_end) rfl, ⟨rfl, rfl, rfl, bounds.2⟩, rfl, rfl⟩

theorem Stands.step_of_none (none : ∀ substitution ∈ substitutions, ∀ pos length,
      Matches source index substitution.key pos length → pos = source.length) :
    ∃ lsm' world', lsm.step world = (false, lsm', world') ∧
      lsm'.unsubstitutedText = source.drop index := by
  obtain ⟨rfl, rfl, rfl, inside⟩ := stands
  have stands : Stands lsm.source lsm.substitutions lsm.index lsm := ⟨rfl, rfl, rfl, inside⟩
  have tried := stands.tried
  have whole : substr lsm.source lsm.index (lsm.source.length - lsm.index) =
      lsm.source.drop lsm.index := by
    rw [substr, ← length_drop, take_length]
  have notBefore : ¬ lsm.source.length < lsm.source.length := Nat.lt_irrefl _
  generalize triedEq : lsm.substitutions.foldl Lsm.triageSubstitution
    { lsm with nextMatch := lsm.source.length } = after at tried
  cases tried with
  | nothing _ =>
    rw [Lsm.step]
    rw [triedEq]
    rw [whole]
    -- the substitution of an earlier step is still there
    cases lsm.nextSubstitution with
    | none => exact ⟨_, world, Prod.ext (decide_eq_false notBefore) rfl, rfl⟩
    | some stale =>
      refine ⟨_, _, Prod.ext (decide_eq_false ?_) rfl, ?_⟩
      · rw [(incrementIndex_keeps _ _).1, (incrementIndex_keeps _ _).2.1]
        exact notBefore
      · exact (incrementIndex_keeps _ _).2.2
  | chosen other pos length before_end best =>
    have atEnd : pos = lsm.source.length := none other best.mem pos length best.isMatch
    exact absurd atEnd (Nat.ne_of_lt before_end)

end

end

/-- The text that belongs to a source from an index on. -/
inductive Cutting (source : List Nat) (substitutions : List (Substitution W)) :
    W → Nat → List Nat → Prop
  | rest {world : W} {index : Nat}
      (none : ∀ substitution ∈ substitutions, ∀ pos length,
        ¬ Matches source index substitution.key pos length) :
      Cutting source substitutions world index (source.drop index)
  | piece {world : W} {index pos length : Nat} {substitution : Substitution W} {later : List Nat}
      (best : Best source index substitutions substitution pos length)
      (cutting : Cutting source substitutions (substitution.value.evaluate world).2 (pos + length)
        later) : Cutting source substitutions world index
        (substr source index (pos - index) ++ (substitution.value.evaluate world).1 ++ later)

/-- From one index of the cutting to the next one. -/
def Advances (source : List Nat) (substitutions : List (Substitution W)) (place next : W × Nat) :
    Prop :=
  ∃ substitution pos length, Best source place.2 substitutions substitution pos length ∧
    next = ((substitution.value.evaluate place.1).2, pos + length)

/-- The match does not hold up the loop: it has characters, or is ahead. -/
def Proceeds (source : List Nat) (substitutions : List (Substitution W)) (place : W × Nat) : Prop :=
  ∀ substitution pos length, Best source place.2 substitutions substitution pos length →
    0 < length ∨
      place.2 < pos ∧ (pos < source.length ∨ (substitution.value.evaluate place.1).1 = [])

/-- `trans` ends, and what it returns is the cutting of the source. -/
def SubstitutesLeftmostLongest (source : List Nat) (substitutions : List (Substitution W))
    (world : W) : Prop :=
  ∃ rounds result world', substitute rounds source substitutions world = some (result, world') ∧
    Cutting source substitutions world 0 result

section

variable {later : List Nat} {place : W × Nat}

theorem not_cutting_of_match_at_end (best : Best source source.length substitutions substitution pos
    length) : ¬ Cutting source substitutions world source.length later := by
  intro cutting
  generalize indexEq : source.length = index at cutting
  induction cutting with
  | rest none =>
    subst indexEq
    exact none substitution best.mem pos length best.isMatch
  | piece best' cutting ih =>
    subst indexEq
    have bounds := best'.isMatch.bounds (Nat.le_refl _)
    exact ih (by omega)

section
variable (stands : Stands source substitutions index lsm)
include stands

theorem loop_of_best (best : Best source index substitutions substitution pos length)
    (before_end : pos < source.length) : ∃ lsm', Stands source substitutions (pos + length) lsm' ∧
      ∀ rounds result, lsm.loop (rounds + 1) world result =
        lsm'.loop rounds (substitution.value.evaluate world).2
          (result ++ substr source index (pos - index) ++
            (substitution.value.evaluate world).1) := by
  obtain ⟨lsm', ran, stands', unsubstituted, substituted⟩ :=
    @Stands.step_of_best W _ _ _ _ _ _ lsm world stands best before_end
  refine ⟨lsm', stands', fun rounds result => ?_⟩
  rw [Lsm.loop, ran]
  dsimp only
  rw [if_pos rfl, unsubstituted, substituted]

theorem loop_of_none (none : ∀ substitution ∈ substitutions, ∀ pos length,
      Matches source index substitution.key pos length → pos = source.length)
    (rounds : Nat) (result : List Nat) :
    ∃ world', lsm.loop (rounds + 1) world result = some (result ++ source.drop index, world') := by
  obtain ⟨lsm', world', ran, unsubstituted⟩ :=
    @Stands.step_of_none W source index substitutions lsm world stands none
  refine ⟨world', ?_⟩
  rw [Lsm.loop, ran]
  dsimp only
  rw [unsubstituted]
  rfl

/-- An empty match where the loop stands, before the end of the source: the loop goes on forever. -/
theorem loop_stuck (best : Best source index substitutions substitution index 0)
    (before_end : index < source.length) (rounds : Nat) (result : List Nat) :
    lsm.loop rounds world result = none := by
  induction rounds generalizing lsm world result with
  | zero => rfl
  | succ rounds ih =>
    obtain ⟨lsm', stands', ran⟩ := @loop_of_best W _ _ _ _ _ _ lsm world stands best before_end
    rw [ran]
    exact ih stands' _

end

theorem none_before_end (inside : index ≤ source.length)
    (best : Best source index substitutions substitution pos length) (atEnd : pos = source.length) :
    ∀ other ∈ substitutions, ∀ pos' length', Matches source index other.key pos' length' →
      pos' = source.length := by
  intro other member pos' length' isMatch
  have notBeaten := best.not_beaten member isMatch
  have bounds := isMatch.bounds inside
  unfold Beats at notBeaten
  omega

theorem Best.advances (best : Best source index substitutions substitution pos length) (world : W) :
    Advances source substitutions (world, index)
      ((substitution.value.evaluate world).2, pos + length) :=
  ⟨substitution, pos, length, best, rfl⟩

theorem reached_of_best (best : Best source index substitutions substitution pos length)
    (reached : Relation.ReflTransGen (Advances source substitutions) (world, index) place) :
    place = (world, index) ∨ Relation.ReflTransGen (Advances source substitutions)
      ((substitution.value.evaluate world).2, pos + length) place := by
  rcases Relation.ReflTransGen.cases_head reached with
    same | ⟨next, ⟨other, pos', length', best', rfl⟩, later⟩
  · exact .inl same.symm
  · obtain ⟨rfl, rfl, rfl⟩ := best.unique best'
    exact .inr later

theorem reached_of_none (none : ∀ substitution pos length,
    ¬ Best source index substitutions substitution pos length)
    (reached : Relation.ReflTransGen (Advances source substitutions) (world, index) place) :
    place = (world, index) := by
  rcases Relation.ReflTransGen.cases_head reached with
    same | ⟨next, ⟨other, pos', length', best', _⟩, _⟩
  · exact same.symm
  · exact absurd best' (none other pos' length')

theorem loop_cuts (stands : Stands source substitutions index lsm) (proceeds : ∀ place,
      Relation.ReflTransGen (Advances source substitutions) (world, index) place →
        Proceeds source substitutions place) (result : List Nat) :
    ∃ rounds later world', lsm.loop rounds world result = some (result ++ later, world') ∧
      Cutting source substitutions world index later := by
  induction remaining : source.length - index using Nat.strongRecOn
    generalizing index lsm world result with
  | ind remaining ih =>
    rcases exists_best stands.inside substitutions with none | ⟨substitution, pos, length, best⟩
    · obtain ⟨world', ran⟩ := @loop_of_none W _ _ _ lsm world stands
        (fun other member pos length isMatch => absurd isMatch (none other member pos length))
        0 result
      exact ⟨1, _, world', ran, .rest none⟩
    have bounds := best.isMatch.bounds stands.inside
    have here := proceeds (world, index) .refl substitution pos length best
    have onward : ∀ place, Relation.ReflTransGen (Advances source substitutions)
        ((substitution.value.evaluate world).2, pos + length) place →
        Proceeds source substitutions place :=
      fun place reached => proceeds place (.head (best.advances world) reached)
    by_cases before_end : pos < source.length
    · obtain ⟨lsm', stands', ran⟩ := @loop_of_best W _ _ _ _ _ _ lsm world stands best before_end
      obtain ⟨rounds, later, world', ran', cutting⟩ := ih
        (source.length - (pos + length)) (by omega) stands' onward
        (result ++ substr source index (pos - index) ++ (substitution.value.evaluate world).1) rfl
      refine ⟨rounds + 1, _, world', ?_, .piece best cutting⟩
      rw [ran, ran', append_assoc, append_assoc, append_assoc]
    have atEnd : pos = source.length := by omega
    obtain ⟨world', ran⟩ := @loop_of_none W _ _ _ lsm world stands
      (none_before_end stands.inside best atEnd) 0 result
    have behind : pos + length = source.length := by omega
    have empty : (substitution.value.evaluate world).1 = [] := by
      rcases here with long | ⟨_, before_end' | empty⟩
      · omega
      · exact absurd before_end' before_end
      · exact empty
    rw [behind] at onward
    have noneBehind : ∀ other ∈ substitutions, ∀ pos' length',
        ¬ Matches source source.length other.key pos' length' := by
      rcases exists_best (Nat.le_refl _) substitutions with
        none | ⟨other, pos', length', best'⟩
      · exact none
      have bounds' := best'.isMatch.bounds (Nat.le_refl _)
      have held := onward _ .refl other pos' length' best'
      omega
    have cutting : Cutting source substitutions (substitution.value.evaluate world).2
        (pos + length) (source.drop source.length) := by
      rw [behind]
      exact .rest noneBehind
    refine ⟨1, _, world', ?_, .piece best cutting⟩
    rw [ran, empty, atEnd, drop_length, append_nil, append_nil, substr, ← length_drop, take_length]

/-- A loop that ends with a cutting has not been held up anywhere. -/
theorem proceeds_of_cutting (cutting : Cutting source substitutions world index later)
    (stands : Stands source substitutions index lsm) {rounds : Nat} {result : List Nat} {world' : W}
    (ran : lsm.loop rounds world result = some (result ++ later, world')) :
    ∀ place, Relation.ReflTransGen (Advances source substitutions) (world, index) place →
      Proceeds source substitutions place := by
  induction cutting generalizing lsm rounds result with
  | @rest world index none =>
    intro place reached
    have noBest : ∀ (substitution : Substitution W) (pos length : Nat),
        ¬ Best source index substitutions substitution pos length :=
      fun substitution pos length best => none substitution best.mem pos length best.isMatch
    rw [reached_of_none noBest reached]
    exact fun substitution pos length best => absurd best (noBest substitution pos length)
  | @piece world index pos length substitution later best cutting ih =>
    intro place reached
    have bounds := best.isMatch.bounds stands.inside
    obtain ⟨rounds, rfl⟩ : ∃ earlier, rounds = earlier + 1 := by
      cases rounds with
      | zero => cases ran
      | succ rounds => exact ⟨rounds, rfl⟩
    by_cases before_end : pos < source.length
    · have further : 0 < length ∨ index < pos := by
        by_contra held
        obtain ⟨rfl, rfl⟩ : pos = index ∧ length = 0 := by omega
        rw [loop_stuck stands best before_end] at ran
        cases ran
      rcases reached_of_best best reached with rfl | onward
      · intro other pos' length' best'
        obtain ⟨rfl, rfl, rfl⟩ := best.unique best'
        exact further.imp_right fun ahead => ⟨ahead, .inl before_end⟩
      obtain ⟨lsm', stands', ran'⟩ := @loop_of_best W _ _ _ _ _ _ lsm world stands best before_end
      have regrouped : result ++ (substr source index (pos - index) ++
          (substitution.value.evaluate world).1 ++ later) = result ++
            substr source index (pos - index) ++ (substitution.value.evaluate world).1 ++
              later := by
        simp only [append_assoc]
      rw [ran', regrouped] at ran
      exact ih stands' ran place onward
    · have atEnd : pos = source.length := by omega
      have behind : pos + length = source.length := by omega
      obtain ⟨world'', ran'⟩ := @loop_of_none W _ _ _ lsm world stands
        (none_before_end stands.inside best atEnd) rounds result
      have same := (Prod.mk.inj (some.inj (ran'.symm.trans ran))).1
      have whole : substr source index (pos - index) = source.drop index := by
        rw [atEnd, substr, ← length_drop, take_length]
      rw [whole, append_assoc] at same
      have lengths := congrArg List.length same
      simp only [length_append] at lengths
      rw [behind] at cutting
      have noBest : ∀ (other : Substitution W) (pos' length' : Nat),
          ¬ Best source source.length substitutions other pos' length' :=
        fun other pos' length' best' => not_cutting_of_match_at_end best' cutting
      rcases reached_of_best best reached with rfl | onward
      · intro other pos' length' best'
        obtain ⟨rfl, rfl, rfl⟩ := best.unique best'
        have inside := stands.inside
        have valueLength : (substitution.value.evaluate world).1.length = 0 := by omega
        refine .inr ⟨?_, .inr (length_eq_zero_iff.mp valueLength)⟩
        by_contra here
        obtain rfl : index = source.length := Nat.le_antisymm inside (atEnd ▸ Nat.not_lt.mp here)
        exact noBest substitution pos length best
      · rw [behind] at onward
        rw [reached_of_none noBest onward]
        exact fun other pos' length' best' => absurd best' (noBest other pos' length')

/-- `trans` ends and returns the cutting of the source exactly if no match on the way holds it
up. -/
theorem substitutes_leftmost_longest (source : List Nat) (substitutions : List (Substitution W))
    (world : W) : SubstitutesLeftmostLongest source substitutions world ↔
      ∀ place, Relation.ReflTransGen (Advances source substitutions) (world, 0) place →
        Proceeds source substitutions place := by
  have stands : Stands source substitutions 0 (Lsm.new source substitutions) :=
    ⟨rfl, rfl, rfl, Nat.zero_le _⟩
  constructor
  · rintro ⟨rounds, result, world', ran, cutting⟩
    exact proceeds_of_cutting cutting stands ran
  intro proceeds
  obtain ⟨rounds, later, world', ran, cutting⟩ := loop_cuts stands proceeds []
  exact ⟨rounds, later, world', ran, cutting⟩

end

theorem empty_key_not_ends (rounds : Nat) :
    substitute rounds [97] [⟨.cool [], .text [120]⟩] () = none := by
  have isMatch : Matches [97] 0 (.cool []) 0 0 := ⟨Nat.le_refl 0, Nat.zero_le _, nil_prefix, rfl⟩
  have best : Best [97] 0 [⟨.cool [], .text [120]⟩] (⟨.cool [], .text [120]⟩ : Substitution Unit)
      0 0 := by
    have only := @Best.new Unit [97] 0 [] ⟨.cool [], .text [120]⟩ 0 0 isMatch ?_ ?_
    · exact only
    · rintro pos' _ ⟨_, _, _, rfl⟩
      unfold Beats
      exact fun beats => by simp at beats
    · exact nofun
  exact loop_stuck ⟨rfl, rfl, rfl, Nat.zero_le _⟩ best (by decide) rounds []

theorem empty_key_not_substituted :
    ¬ SubstitutesLeftmostLongest [97] [⟨.cool [], .text [120]⟩] () := by
  rintro ⟨rounds, result, world', ran, _⟩
  rw [empty_key_not_ends] at ran
  cases ran

end RakudoStar.Text
