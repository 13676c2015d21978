import RakudoStar.QRegex.Attempts
import RakudoStar.QRegex.Caphash

/-!
# No capture is lost

The match keeps every capture of the path when each name that can be captured more than once
repeats where `capnames` looks.
-/

namespace RakudoStar.QRegex

open List

variable {M : Type} {name : Name} {capture : Capture M} {attempts : Attempts M}

theorem capturesOf_append (name : Name) (first second : List (Capture M)) :
    capturesOf name (first ++ second) = capturesOf name first ++ capturesOf name second :=
  filter_append ..

theorem capturesOf_own (own : name ∈ capture.names) (captures : List (Capture M)) :
    capturesOf name (capture :: captures) = capture :: capturesOf name captures :=
  filter_cons_of_pos (decide_eq_true own)

theorem capturesOf_other (other : name ∉ capture.names) (captures : List (Capture M)) :
    capturesOf name (capture :: captures) = capturesOf name captures :=
  filter_cons_of_neg fun own => other (of_decide_eq_true own)

theorem Attempts.names_eq (attempts : Attempts M)
    (mem : capture ∈ attempts.stack) : capture.names = attempts.capture.names := by
  rcases mem_append.mp mem with stale | taken
  · rcases mem_map.mp stale with ⟨sub, _, rfl⟩
    rfl
  · rw [mem_singleton.mp taken]

theorem capturesOf_stack_own
    (own : name ∈ attempts.capture.names) : capturesOf name attempts.stack = attempts.stack :=
  filter_eq_self.mpr fun _ mem => decide_eq_true (attempts.names_eq mem ▸ own)

theorem capturesOf_stack_other
    (other : name ∉ attempts.capture.names) : capturesOf name attempts.stack = [] :=
  filter_eq_nil_iff.mpr fun _ mem own =>
    other (attempts.names_eq mem ▸ of_decide_eq_true own)

theorem getLast?_capturesOf_stack (name : Name) (attempts : List (Attempts M)) :
    (capturesOf name (attempts.flatMap Attempts.stack)).getLast? =
      (capturesOf name (attempts.map Attempts.capture)).getLast? := by
  induction attempts with
  | nil => rfl
  | cons first attempts ih =>
    rw [flatMap_cons, map_cons, capturesOf_append]
    by_cases own : name ∈ first.capture.names
    · rw [capturesOf_stack_own own, capturesOf_own own, getLast?_append,
        getLast?_cons, ih, Attempts.stack, getLast?_concat]
      cases (capturesOf name (attempts.map Attempts.capture)).getLast? with
      | none => rfl
      | some last => rfl
    · rw [capturesOf_stack_other own, capturesOf_other own, nil_append]
      exact ih

theorem subsOf_append (name : Name) (first second : List (Capture M)) :
    subsOf name (first ++ second) = subsOf name first ++ subsOf name second :=
  flatMap_append ..

theorem sublist_subsOf_stack (name : Name) (attempts : List (Attempts M)) :
    ((capturesOf name (attempts.map Attempts.capture)).map Capture.sub).Sublist
      (subsOf name (attempts.flatMap Attempts.stack)) := by
  induction attempts with
  | nil => exact nil_sublist _
  | cons first attempts ih =>
    rw [flatMap_cons, map_cons, subsOf_append]
    by_cases own : name ∈ first.capture.names
    · have counted : 0 < first.capture.names.count name := count_pos_iff.mpr own
      have taken : [first.capture.sub].Sublist (subsOf name first.stack) := by
        rw [Attempts.stack, subsOf_concat]
        refine sublist_append_of_sublist_right (singleton_sublist.mpr ?_)
        exact mem_replicate.mpr ⟨Nat.ne_of_gt counted, rfl⟩
      rw [capturesOf_own own]
      exact taken.append ih
    · rw [capturesOf_other own]
      exact sublist_append_of_sublist_right ih

/-- An entry holds all sub-matches of some captures. -/
def Keeps (entry : Option (Entry M)) (captures : List (Capture M)) : Prop :=
  match entry with
  | none => captures = []
  | some (.single sub) => captures.map Capture.sub = [sub]
  | some (.many subs) => (captures.map Capture.sub).Sublist subs

variable (M) in
/-- Some path can capture more than once under a name. -/
def MayRepeat (regex : Regex) (name : Name) : Prop :=
  ∃ captures : List (Capture M), path regex captures ∧ 2 ≤ (capturesOf name captures).length

variable (M) in
/-- The hash keeps the path's captures, as a list where there may be several. -/
def NothingLost {C : Type} (numerals : Numerals C) (isNumeric : Char → Bool) (regex : Regex) :
    Prop :=
  ∀ cur : Stacks M, Reachable cur → cur.retry = none →
    path (capnames numerals regex numerals.zero).node cur.path →
    ∃ caps, CAPHASH (caplist isNumeric (capnames numerals regex numerals.zero).counts)
        cur.cstack = some caps ∧
      ∀ name, name ∉ marks → Keeps (caps name) (capturesOf name cur.path) ∧
        (MayRepeat M (capnames numerals regex numerals.zero).node name →
          ∃ subs, caps name = some (.many subs))

theorem two_le_caplist {isNumeric : Char → Bool} {counts : Counts} :
    2 ≤ caplist isNumeric counts name ↔ name ≠ [] ∧ 1 < counts name := by
  unfold caplist
  split
  · next empty => exact ⟨fun large => absurd large (by decide), fun named => absurd empty named.1⟩
  next named =>
    have digit : (if name.head?.any isNumeric = true then 1 else 0) ≤ 1 := by
      split <;> decide
    by_cases more : 1 < counts name
    · rw [if_pos more]
      exact ⟨fun _ => ⟨named, more⟩, fun _ => by omega⟩
    · rw [if_neg more]
      exact ⟨fun large => by omega, fun both => absurd both.2 more⟩

section

variable {C : Type} {numerals : Numerals C} {isNumeric : Char → Bool} {regex : Regex}

variable (numerals isNumeric regex) in
theorem list_iff_repeats (noMark : name ∉ marks) (count : C) :
    2 ≤ caplist isNumeric (capnames numerals regex count).counts name ↔
      name ≠ [] ∧ repeats name (capnames numerals regex count).node := by
  rw [two_le_caplist, (capnames_exact numerals regex count name noMark).2]

theorem keeps_single {caplist : Name → Nat} (scalar : ¬ 2 ≤ caplist name)
    {attempts : List (Attempts M)} {caps : Caps M}
    (entries : EntriesOf caplist (attempts.flatMap Attempts.stack) caps)
    (once : ¬ 2 ≤ (capturesOf name (attempts.map Attempts.capture)).length) :
    Keeps (caps name) (capturesOf name (attempts.map Attempts.capture)) := by
  rw [entries name, if_neg scalar, getLast?_capturesOf_stack]
  match capturesOf name (attempts.map Attempts.capture), once with
  | [], _ => exact rfl
  | [capture], _ => exact rfl
  | first :: second :: rest, once =>
    exact absurd (Nat.le_add_left 2 rest.length) once

theorem nothingLost_of_repeats (repeated : ∀ name, name ∉ marks →
      MayRepeat M (capnames numerals regex numerals.zero).node name →
        name ≠ [] ∧ repeats name (capnames numerals regex numerals.zero).node) :
    NothingLost M numerals isNumeric regex := by
  intro cur reachable taken onPath
  rcases reachable.attempts taken with ⟨attempts, pathEq, stackEq⟩
  rcases CAPHASH_entries (caplist isNumeric (capnames numerals regex numerals.zero).counts)
    cur.cstack with ⟨caps, ran, entries⟩
  refine ⟨caps, ran, fun name noMark => ?_⟩
  have isList := list_iff_repeats numerals isNumeric regex noMark numerals.zero
  by_cases list : 2 ≤ caplist isNumeric (capnames numerals regex numerals.zero).counts name
  · have entry := (entries name).trans (if_pos list)
    refine ⟨?_, fun _ => ⟨_, entry⟩⟩
    rw [entry, pathEq, stackEq]
    exact sublist_subsOf_stack name attempts
  have never : ¬ MayRepeat M (capnames numerals regex numerals.zero).node name :=
    fun may => list (isList.mpr (repeated name noMark may))
  refine ⟨?_, fun may => absurd may never⟩
  rw [stackEq] at entries
  rw [pathEq] at onPath ⊢
  exact keeps_single list entries fun more => never ⟨_, onPath, more⟩

theorem NothingLost.repeats (kept : NothingLost M numerals isNumeric regex) (noMark : name ∉ marks)
    (may : MayRepeat M (capnames numerals regex numerals.zero).node name) :
    name ≠ [] ∧ repeats name (capnames numerals regex numerals.zero).node := by
  rcases may with ⟨captures, onPath, more⟩
  rcases reachable_of_captures captures with ⟨cur, reachable, taken, rfl⟩
  rcases kept cur reachable taken onPath with ⟨caps, ran, keeps⟩
  rcases (keeps name noMark).2 ⟨_, onPath, more⟩ with ⟨subs, entry⟩
  rcases CAPHASH_entries (caplist isNumeric (capnames numerals regex numerals.zero).counts)
    cur.cstack with ⟨others, ranAgain, entries⟩
  cases ran.symm.trans ranAgain
  refine (list_iff_repeats numerals isNumeric regex noMark numerals.zero).mp ?_
  by_cases list : 2 ≤ caplist isNumeric (capnames numerals regex numerals.zero).counts name
  · exact list
  have scalar := (entries name).trans (if_neg list)
  rw [entry] at scalar
  cases last : (capturesOf name cur.cstack).getLast? with
  | none | some capture =>
    rw [last] at scalar
    cases scalar

end

/-- A regex loses no capture exactly when each name that a path can capture more than once
repeats outside separators and conjunctions; and `MATCH` keeps the entries of names that have
a place of their own. -/
theorem captures_are_kept {C : Type} (numerals : Numerals C) (isNumeric : Char → Bool)
    (regex : Regex) : (NothingLost M numerals isNumeric regex ↔ ∀ name, name ∉ marks →
      MayRepeat M (capnames numerals regex numerals.zero).node name →
        name ≠ [] ∧ repeats name (capnames numerals regex numerals.zero).node) ∧
    ∀ (index : Name → Nat) (caps : Caps M) (keys : List Name),
      (∀ name, name ∈ keys ↔ caps name ≠ none) → ∀ name, name ∉ marks →
      (∀ other ∈ keys, other ∉ marks →
        place isNumeric index other = place isNumeric index name → other = name) →
      MATCH isNumeric index caps keys (fun _ => none) (place isNumeric index name) = caps name :=
  ⟨⟨fun kept _ noMark may => kept.repeats noMark may, nothingLost_of_repeats⟩,
    fun _ _ _ hasEntry _ noMark alone => MATCH_place hasEntry noMark alone⟩

/-- Names as decimal numbers. -/
def decimal : Numerals Nat :=
  { zero := 0
    spell := fun count => (Nat.toDigits 10 count)
    after := fun name =>
      if name ≠ [] ∧ name.all Char.isDigit then
        some (name.foldl (fun value digit => 10 * value + (digit.toNat - 48)) 0 + 1)
      else none
    exceeds := fun first second => second < first }

/-- The regex `[<a>]+`. -/
def quantifiedSubrule : Regex := .quant 1 (-1) .greedy (.concat [.subrule .capture ['a']])

/-- The regex `'x'+ % <a>`. -/
def capturingSeparator : Regex :=
  .separated 1 (-1) .greedy (.literal ['x'] false false) (.subrule .capture ['a'])

theorem captures_are_kept_quantified : NothingLost Nat decimal Char.isDigit quantifiedSubrule := by
  refine (captures_are_kept decimal Char.isDigit quantifiedSubrule).1.mpr ?_
  rintro name noMark ⟨captures, ⟨n, -, iterated⟩, more⟩
  have onlyA : ∀ capture ∈ captures, name ∈ capture.names → name = ['a'] := by
    clear more
    induction iterated with
    | zero => exact nofun
    | one first =>
      rcases first with ⟨_, _, ⟨sub, rfl⟩, rfl, rfl⟩
      intro capture mem own
      rw [mem_singleton.mp mem] at own
      exact mem_singleton.mp own
    | more first between _ ih =>
      rcases first with ⟨_, _, ⟨sub, rfl⟩, rfl, rfl⟩
      obtain rfl := between
      intro capture mem own
      rcases mem_cons.mp mem with rfl | later
      · exact mem_singleton.mp own
      · exact ih capture later own
  rcases exists_mem_of_length_pos (Nat.lt_of_lt_of_le Nat.two_pos more) with ⟨capture, mem⟩
  rcases mem_filter.mp mem with ⟨onPath, own⟩
  obtain rfl := onlyA capture onPath (of_decide_eq_true own)
  exact ⟨cons_ne_nil _ _, .inl mem_cons_self⟩

theorem separator_loses_captures : ¬ NothingLost Nat decimal Char.isDigit capturingSeparator := by
  intro kept
  have may : MayRepeat Nat capturingSeparator ['a'] := by
    have matched : Iterated (path (.literal ['x'] false false)) (path (.subrule .capture ['a'])) 3
        ([] ++ [(⟨some ['a'], 1⟩ : Capture Nat)] ++ ([] ++ [⟨some ['a'], 2⟩] ++ [])) :=
      .more rfl ⟨1, rfl⟩ (.more rfl ⟨2, rfl⟩ (.one rfl))
    exact ⟨_, ⟨3, ⟨by decide, by decide⟩, matched⟩, by decide⟩
  exact (kept.repeats (by decide) may).2

end RakudoStar.QRegex
