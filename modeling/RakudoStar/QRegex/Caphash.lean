import RakudoStar.QRegex.Capnames

/-!
# What the counts say

The count of a name is positive where the name occurs in the tree, and above one where it
repeats, as far as `capnames` looks into the tree.
-/

namespace RakudoStar.QRegex

variable {C : Type} (numerals : Numerals C) {occur occur' repeated repeated' : Name → Prop}
  {counts : Counts}

/-- Counts that tell whether names occur and whether they repeat. -/
def Exact (counts : Counts) (occur repeated : Name → Prop) : Prop :=
  ∀ name, name ∉ marks → (0 < counts name ↔ occur name) ∧ (1 < counts name ↔ repeated name)

theorem dropMarks_of_not_mem {name : Name} (noMark : name ∉ marks) (counts : Counts) :
    dropMarks counts name = counts name := if_neg noMark

theorem Exact.dropMarks
    (exact : Exact counts occur repeated) : Exact (dropMarks counts) occur repeated := by
  intro name noMark
  rw [dropMarks_of_not_mem noMark]
  exact exact name noMark

theorem ownNames_exact (names : List Name) (count : C) :
    Exact (ownNames numerals names count).1 (· ∈ names) (fun _ => False) := by
  intro name _
  rw [ownNames]
  dsimp only
  by_cases own : name ∈ names
  · rw [if_pos own]
    exact ⟨⟨fun _ => own, fun _ => Nat.one_pos⟩,
      ⟨fun more => absurd more (Nat.lt_irrefl 1), False.elim⟩⟩
  rw [if_neg own]
  exact ⟨⟨fun more => absurd more (Nat.lt_irrefl 0), fun mem => absurd mem own⟩,
    ⟨fun more => absurd more (Nat.not_lt_zero 1), False.elim⟩⟩

theorem Exact.add {first second : Counts}
    (left : Exact first occur repeated) (right : Exact second occur' repeated') :
    Exact (fun name => first name + second name) (fun name => occur name ∨ occur' name)
      (fun name => repeated name ∨ (occur name ∧ occur' name) ∨ repeated' name) := by
  intro name noMark
  rcases left name noMark with ⟨leftOccurs, leftRepeats⟩
  rcases right name noMark with ⟨rightOccurs, rightRepeats⟩
  dsimp only
  rw [← leftOccurs, ← rightOccurs, ← leftRepeats, ← rightRepeats]
  omega

theorem mergeBranch_pos (counts branch : Counts) (name : Name) :
    0 < mergeBranch counts branch name ↔ 0 < counts name ∨ 0 < branch name := by
  unfold mergeBranch
  split
  · omega
  · split <;> omega

theorem mergeBranch_more (counts branch : Counts) (name : Name) :
    1 < mergeBranch counts branch name ↔ 1 < counts name ∨ 1 < branch name := by
  unfold mergeBranch
  split
  · omega
  · split <;> omega

theorem Exact.merge {branch : Counts}
    (left : Exact counts occur repeated) (right : Exact branch occur' repeated') :
    Exact (mergeBranch counts branch) (fun name => occur name ∨ occur' name)
      (fun name => repeated name ∨ repeated' name) := by
  intro name noMark
  rcases left name noMark with ⟨leftOccurs, leftRepeats⟩
  rcases right name noMark with ⟨rightOccurs, rightRepeats⟩
  rw [mergeBranch_pos, mergeBranch_more, leftOccurs, leftRepeats, rightOccurs, rightRepeats]
  exact ⟨Iff.rfl, Iff.rfl⟩

theorem Exact.congr
    (exact : Exact counts occur repeated) (sameOccurs : ∀ name, occur name ↔ occur' name)
    (sameRepeats : ∀ name, repeated name ↔ repeated' name) : Exact counts occur' repeated' :=
  fun name noMark => ⟨(exact name noMark).1.trans (sameOccurs name),
    (exact name noMark).2.trans (sameRepeats name)⟩

theorem exact_zero : Exact (fun _ => 0) (fun _ => False) (fun _ => False) :=
  fun _ _ => ⟨⟨fun more => absurd more (Nat.lt_irrefl 0), False.elim⟩,
    ⟨fun more => absurd more (Nat.not_lt_zero 1), False.elim⟩⟩

theorem Exact.quantified (exact : Exact counts occur repeated) :
    Exact (fun name => if counts name = 0 then 0 else 2) occur occur := by
  intro name noMark
  have occurs := (exact name noMark).1
  dsimp only
  by_cases none : counts name = 0
  · rw [if_pos none, ← occurs, none]
    exact ⟨Iff.rfl, ⟨fun more => absurd more (Nat.not_lt_zero 1), fun more =>
      absurd more (Nat.lt_irrefl 0)⟩⟩
  rw [if_neg none]
  have some := occurs.mp (Nat.pos_of_ne_zero none)
  exact ⟨⟨fun _ => some, fun _ => Nat.two_pos⟩, ⟨fun _ => some, fun _ => Nat.lt_succ_self 1⟩⟩

mutual

theorem capnames_exact : ∀ (regex : Regex) (count : C), Exact (capnames numerals regex count).counts
      (occurs · (capnames numerals regex count).node)
      (repeats · (capnames numerals regex count).node)
  | .concat nodes, count => by
    simp only [capnames, occurs, repeats]
    rcases capnamesConcat_exact nodes (fun _ => 0) count with ⟨counts, exact, sum⟩
    have same : (capnamesConcat numerals nodes (fun _ => 0) count).counts = counts :=
      funext fun name => (sum name).trans (Nat.zero_add _)
    rw [same]
    exact exact.dropMarks
  | .alt nodes, count | .altseq nodes, count => by
    simp only [capnames, occurs, repeats]
    exact ((capnamesAlt_exact nodes count exact_zero count).congr
      (fun _ => Iff.of_eq (false_or _)) (fun _ => Iff.of_eq (false_or _))).dropMarks
  | .subrule .capture name, count => by
    simp only [capnames, occurs, repeats]
    exact (ownNames_exact numerals _ count).dropMarks
  | .subcapture name node, count => by
    simp only [capnames, occurs, repeats]
    exact (((ownNames_exact numerals _ count).add (capnames_exact node _)).congr
      (fun _ => Iff.rfl) (fun _ => Iff.of_eq (false_or _))).dropMarks
  | .quant min max backtrack node, count | .separated min max backtrack node sep, count => by
    simp only [capnames, occurs, repeats]
    exact (capnames_exact node count).quantified.dropMarks
  | .literal _ _ _, _ => exact_zero
  | .cclass _ _, _ => exact_zero
  | .enumcharlist _ _ _, _ => exact_zero
  | .anchor _, _ => exact_zero
  | .conj _ _, _ => exact_zero
  | .subrule .method _, _ => exact_zero
  | .subrule .zerowidth _, _ => exact_zero

theorem capnamesConcat_exact : ∀ (nodes : List Regex) (counts : Counts) (count : C),
    ∃ extra, Exact extra (occursIn · (capnamesConcat numerals nodes counts count).node)
      (repeatsAll · (capnamesConcat numerals nodes counts count).node) ∧
      ∀ name, (capnamesConcat numerals nodes counts count).counts name = counts name + extra name
  | [], counts, count => ⟨fun _ => 0, exact_zero, fun _ => rfl⟩
  | node :: nodes, counts, count => by
    rcases capnamesConcat_exact nodes
      (fun name => counts name + (capnames numerals node count).counts name)
      (capnames numerals node count).next with ⟨extra, exact, sum⟩
    refine ⟨_, (capnames_exact node count).add exact, fun name => ?_⟩
    simp only [capnamesConcat]
    rw [sum, Nat.add_assoc]

theorem capnamesAlt_exact : ∀ (nodes : List Regex) (count : C) {counts : Counts}
    {occur repeated : Name → Prop}, Exact counts occur repeated → ∀ max : C,
    Exact (capnamesAlt numerals nodes count counts max).counts
      (fun name => occur name ∨ occursIn name (capnamesAlt numerals nodes count counts max).node)
      (fun name => repeated name ∨
        repeatsAny name (capnamesAlt numerals nodes count counts max).node)
  | [], _, _, _, _, exact, _ =>
    exact.congr (fun _ => (Iff.of_eq (or_false _)).symm) (fun _ => (Iff.of_eq (or_false _)).symm)
  | node :: nodes, count, _, _, _, exact, _ =>
    (capnamesAlt_exact nodes count (exact.merge (capnames_exact node count)) _).congr
      (fun _ => or_assoc) (fun _ => or_assoc)

end

end RakudoStar.QRegex

namespace RakudoStar.QRegex

variable {M : Type}

/-- What is under a name. -/
inductive Entry (M : Type) where
  | single (sub : M)
  | many (subs : List M)
  deriving DecidableEq, Repr

abbrev Caps (M : Type) := Name → Option (Entry M)

def bindEntry (caps : Caps M) (name : Name) (entry : Entry M) : Caps M := fun other =>
  if other = name then some entry else caps other

/-- A cursor under one of its names; there is nothing to push to where no list is. -/
def addCapture (caplist : Name → Nat) (sub : M) (caps : Caps M) (name : Name) : Option (Caps M) :=
  if 2 ≤ caplist name then
    match caps name with
    | some (.many subs) => some (bindEntry caps name (.many (subs ++ [sub])))
    | _ => none
  else some (bindEntry caps name (.single sub))

/-- The loop over the names of a cursor. -/
def addNames (caplist : Name → Nat) (sub : M) : Caps M → List Name → Option (Caps M)
  | caps, [] => some caps
  | caps, name :: names => do
    let caps ← addCapture caplist sub caps name
    addNames caplist sub caps names

/-- The loop over the capture stack. -/
def addAll (caplist : Name → Nat) : Caps M → List (Capture M) → Option (Caps M)
  | caps, [] => some caps
  | caps, capture :: captures => do
    let caps ← addNames caplist capture.sub caps capture.names
    addAll caplist caps captures

def CAPHASH (caplist : Name → Nat) (cstack : List (Capture M)) : Option (Caps M) :=
  addAll caplist (fun name => if 2 ≤ caplist name then some (.many []) else none) cstack

/-- Where the match has the entry for a name. -/
inductive Place where
  | position (index : Nat)
  | key (name : Name)
  deriving DecidableEq, Repr

def place (isNumeric : Char → Bool) (index : Name → Nat) (name : Name) : Place :=
  if name.head?.any isNumeric then .position (index name) else .key name

/-- The loop of `MATCH` over the hash, in whatever order. -/
def MATCH (isNumeric : Char → Bool) (index : Name → Nat) (caps : Caps M) :
    List Name → (Place → Option (Entry M)) → Place → Option (Entry M)
  | [], entries => entries
  | key :: keys, entries =>
    if key ∈ marks then MATCH isNumeric index caps keys entries
    else
      MATCH isNumeric index caps keys fun other =>
        if other = place isNumeric index key then caps key else entries other

variable {caplist : Name → Nat}

/-- The sub-matches under a name, as often as the name is given. -/
def subsOf (name : Name) (captures : List (Capture M)) : List M :=
  captures.flatMap fun capture => List.replicate (capture.names.count name) capture.sub

variable (caplist) in
/-- What `CAPHASH` leaves when it has gone through some captures. -/
def EntriesOf (captures : List (Capture M)) (caps : Caps M) : Prop :=
  ∀ name, caps name =
    if 2 ≤ caplist name then some (.many (subsOf name captures))
    else (capturesOf name captures).getLast?.map fun capture => .single capture.sub

theorem addNames_ok (sub : M) (names : List Name) (caps : Caps M)
    (lists : ∀ name, 2 ≤ caplist name → ∃ subs, caps name = some (.many subs)) :
    ∃ after, addNames caplist sub caps names = some after ∧ ∀ name,
      (2 ≤ caplist name → ∀ subs, caps name = some (.many subs) →
        after name = some (.many (subs ++ List.replicate (names.count name) sub))) ∧
      (¬ 2 ≤ caplist name →
        after name = if name ∈ names then some (.single sub) else caps name) := by
  induction names generalizing caps with
  | nil =>
    refine ⟨caps, rfl, fun name => ⟨fun _ subs before => ?_, fun _ => rfl⟩⟩
    rw [before, List.count_nil, List.replicate_zero, List.append_nil]
  | cons first names ih =>
    have step : ∃ next, addCapture caplist sub caps first = some next ∧ ∀ name,
        (2 ≤ caplist name → ∀ subs, caps name = some (.many subs) →
          next name = some (.many (subs ++ List.replicate ([first].count name) sub))) ∧
        (¬ 2 ≤ caplist name →
          next name = if name = first then some (.single sub) else caps name) := by
      by_cases isList : 2 ≤ caplist first
      · rcases lists first isList with ⟨subs, before⟩
        refine ⟨bindEntry caps first (.many (subs ++ [sub])), ?_, fun name => ⟨?_, ?_⟩⟩
        · rw [addCapture, if_pos isList, before]
        · intro _ others found
          by_cases same : name = first
          · subst same
            cases before.symm.trans found
            rw [bindEntry, if_pos rfl, List.count_singleton_self]
            rfl
          · rw [bindEntry, if_neg same, found, List.count_singleton,
              if_neg (by simpa using Ne.symm same), List.replicate_zero, List.append_nil]
        · intro notList
          have other : name ≠ first := fun same => notList (same ▸ isList)
          rw [bindEntry, if_neg other, if_neg other]
      refine ⟨bindEntry caps first (.single sub), ?_, fun name => ⟨?_, fun _ => rfl⟩⟩
      · rw [addCapture, if_neg isList]
      intro needed subs found
      have other : name ≠ first := fun same => isList (same ▸ needed)
      rw [bindEntry, if_neg other, found, List.count_singleton,
        if_neg (by simpa using Ne.symm other), List.replicate_zero, List.append_nil]
    rcases step with ⟨next, ran, entries⟩
    have nextLists : ∀ name, 2 ≤ caplist name → ∃ subs, next name = some (.many subs) := by
      intro name isList
      rcases lists name isList with ⟨subs, found⟩
      exact ⟨_, (entries name).1 isList subs found⟩
    rcases ih next nextLists with ⟨after, ranAll, afterEntries⟩
    refine ⟨after, by rw [addNames, ran]; exact ranAll, fun name => ⟨?_, ?_⟩⟩
    · intro isList subs found
      rw [(afterEntries name).1 isList _ ((entries name).1 isList subs found),
        List.append_assoc, List.replicate_append_replicate, ← List.count_append]
      rfl
    intro notList
    rw [(afterEntries name).2 notList, (entries name).2 notList]
    by_cases later : name ∈ names
    · rw [if_pos later, if_pos (List.mem_cons_of_mem first later)]
    rw [if_neg later]
    by_cases same : name = first
    · rw [if_pos same, if_pos (same ▸ List.mem_cons_self)]
    · rw [if_neg same, if_neg fun mem => (List.mem_cons.mp mem).elim same later]

theorem getLast?_capturesOf_concat (name : Name) (captures : List (Capture M))
    (capture : Capture M) : (capturesOf name (captures ++ [capture])).getLast? =
      if name ∈ capture.names then some capture else (capturesOf name captures).getLast? := by
  have last : [capture].filter (fun capture => name ∈ capture.names) =
      if name ∈ capture.names then [capture] else [] := by
    simp only [List.filter_cons, List.filter_nil, decide_eq_true_eq]
  rw [capturesOf, List.filter_append, last]
  by_cases own : name ∈ capture.names
  · rw [if_pos own, if_pos own, List.getLast?_concat]
  · rw [if_neg own, if_neg own, List.append_nil]
    rfl

theorem subsOf_concat (name : Name) (captures : List (Capture M)) (capture : Capture M) :
    subsOf name (captures ++ [capture]) =
      subsOf name captures ++ List.replicate (capture.names.count name) capture.sub := by
  rw [subsOf, List.flatMap_append, List.flatMap_singleton]
  rfl

variable {caps : Caps M} {before : List (Capture M)}

theorem EntriesOf.add (entries : EntriesOf caplist before caps) (capture : Capture M) :
    ∃ after, addNames caplist capture.sub caps capture.names = some after ∧
      EntriesOf caplist (before ++ [capture]) after := by
  have lists : ∀ name, 2 ≤ caplist name → ∃ subs, caps name = some (.many subs) := by
    intro name isList
    exact ⟨_, (entries name).trans (if_pos isList)⟩
  rcases addNames_ok capture.sub capture.names caps lists with ⟨after, ran, result⟩
  refine ⟨after, ran, fun name => ?_⟩
  by_cases isList : 2 ≤ caplist name
  · rw [if_pos isList, subsOf_concat]
    exact (result name).1 isList _ ((entries name).trans (if_pos isList))
  rw [if_neg isList, getLast?_capturesOf_concat, (result name).2 isList]
  by_cases own : name ∈ capture.names
  · rw [if_pos own, if_pos own, Option.map_some]
  · rw [if_neg own, if_neg own, entries name, if_neg isList]

theorem addAll_entries (entries : EntriesOf caplist before caps) (captures : List (Capture M)) :
    ∃ after, addAll caplist caps captures = some after ∧
      EntriesOf caplist (before ++ captures) after := by
  induction captures generalizing before caps with
  | nil => exact ⟨caps, rfl, (List.append_nil before).symm ▸ entries⟩
  | cons capture captures ih =>
    rcases entries.add capture with ⟨next, ran, nextEntries⟩
    rcases ih nextEntries with ⟨after, ranAll, afterEntries⟩
    refine ⟨after, by rw [addAll, ran]; exact ranAll, ?_⟩
    rw [List.append_assoc] at afterEntries
    exact afterEntries

/-- `CAPHASH` never dies, and its entries are those of the capture stack. -/
theorem CAPHASH_entries (caplist : Name → Nat) (cstack : List (Capture M)) :
    ∃ caps, CAPHASH caplist cstack = some caps ∧ EntriesOf caplist cstack caps :=
  have start : EntriesOf caplist []
      fun name => if 2 ≤ caplist name then some (.many []) else none := fun _ => rfl
  addAll_entries start cstack

theorem MATCH_place {isNumeric : Char → Bool} {index : Name → Nat}
    {keys : List Name} (hasEntry : ∀ name, name ∈ keys ↔ caps name ≠ none) {name : Name}
    (noMark : name ∉ marks) (alone : ∀ other ∈ keys, other ∉ marks →
      place isNumeric index other = place isNumeric index name → other = name) :
    MATCH isNumeric index caps keys (fun _ => none) (place isNumeric index name) = caps name := by
  have generally : ∀ (some : List Name) (entries : Place → Option (Entry M)), some ⊆ keys →
      MATCH isNumeric index caps some entries (place isNumeric index name) =
        if name ∈ some then caps name else entries (place isNumeric index name) := by
    intro some entries covered
    induction some generalizing entries with
    | nil => rfl
    | cons key some ih =>
      have keyMem := covered List.mem_cons_self
      have later : some ⊆ keys := fun other mem => covered (List.mem_cons_of_mem key mem)
      by_cases isMark : key ∈ marks
      · have other : name ≠ key := fun same => noMark (same ▸ isMark)
        rw [MATCH, if_pos isMark, ih _ later]
        simp only [List.mem_cons, other, false_or]
      rw [MATCH, if_neg isMark, ih _ later]
      by_cases mem : name ∈ some
      · rw [if_pos mem, if_pos (List.mem_cons_of_mem key mem)]
      rw [if_neg mem]
      by_cases same : name = key
      · subst same
        rw [if_pos rfl, if_pos List.mem_cons_self]
      have elsewhere : place isNumeric index name ≠ place isNumeric index key :=
        fun clash => same (alone key keyMem isMark clash.symm).symm
      rw [if_neg elsewhere, if_neg fun here => (List.mem_cons.mp here).elim same mem]
  rw [generally keys _ (fun _ mem => mem)]
  by_cases mem : name ∈ keys
  · exact if_pos mem
  · rw [if_neg mem]
    exact (Decidable.not_not.mp fun entry => mem ((hasEntry name).mpr entry)).symm

end RakudoStar.QRegex
