import RakudoStar.Freeze.Freezer
import Mathlib.Data.List.Infix
import Mathlib.Data.List.Perm.Subperm

/-!
# The numbering

The seen hash holds the PMCs under the ids one, two and so on, as they were found; those that
are no references to earlier constants are on the todo list in the same order.
-/

namespace RakudoStar.Freeze

open Packfile List

variable {P : Type} [DecidableEq P] {w : World P} {table : Option (FreezeTable P)}
  {s before middle after : Freezer P} {v p : P}

/-- The PMC is part of an earlier constant. -/
def isBackref (table : Option (FreezeTable P)) (v : P) : Bool :=
  (table.bind fun table => table.rlookupPmc v).isSome

namespace Freezer

/-- The PMCs that were put on the todo list, those that were frozen first. -/
def normals (s : Freezer P) : List P := s.frozen ++ s.todo

/-- The PMCs that have been seen. -/
def keys (s : Freezer P) : List P := s.seen.map Prod.fst

variable (table) in
/-- The seen hash is a numbering. -/
structure Numbered (s : Freezer P) : Prop where
  id : s.id = s.seen.length
  ids : ∀ (k : Nat) (entry : P × Nat), s.seen[k]? = some entry → entry.2 = k + 1
  nodup : s.keys.Nodup
  normals : s.normals = s.keys.filter fun v => !isBackref table v
  room : s.normals.length ≤ s.image.length

/-- Nothing that was written or seen is lost. -/
structure Grows (before after : Freezer P) : Prop where
  image : before.image <+: after.image
  seen : before.seen <+: after.seen
  normals : before.normals <+: after.normals

omit [DecidableEq P] in
theorem Grows.refl (s : Freezer P) : Grows s s :=
  ⟨prefix_refl _, prefix_refl _, prefix_refl _⟩

omit [DecidableEq P] in
theorem Grows.trans (first : Grows before middle) (second : Grows middle after) :
    Grows before after :=
  ⟨first.image.trans second.image, first.seen.trans second.seen, first.normals.trans second.normals⟩

variable (table) in
/-- Pushing items that refer to some PMCs. -/
structure Pushes (before after : Freezer P) (refs : List P) : Prop where
  grows : Grows before after
  frozen : after.frozen = before.frozen
  numbered : before.Numbered table → after.Numbered table
  mem_keys : before.Numbered table → ∀ p, p ∈ after.keys ↔ p ∈ before.keys ∨ p ∈ refs

section
omit [DecidableEq P]

theorem Pushes.refl (s : Freezer P) : Pushes table s s [] :=
  ⟨Grows.refl s, rfl, fun numbered => numbered, by simp⟩

theorem Pushes.trans {refs others : List P} (first : Pushes table before middle refs)
    (second : Pushes table middle after others) : Pushes table before after (refs ++ others) where
  grows := first.grows.trans second.grows
  frozen := second.frozen.trans first.frozen
  numbered numbered := second.numbered (first.numbered numbered)
  mem_keys numbered p := by
    rw [second.mem_keys (first.numbered numbered), first.mem_keys numbered, mem_append, or_assoc]

theorem Pushes.of_image {bytes : List UInt8} :
    Pushes table s { s with image := s.image ++ bytes } [] where
  grows := ⟨prefix_append _ _, prefix_refl _, prefix_refl _⟩
  frozen := rfl
  numbered numbered :=
    ⟨numbered.id, numbered.ids, numbered.nodup, numbered.normals, by
      rw [length_append]
      exact Nat.le_add_right_of_le numbered.room⟩
  mem_keys _ p := by simp [keys]

end

theorem Numbered.seen_of_find? (numbered : s.Numbered table) {entry : P × Nat}
    (found : s.seen.find? (fun entry => entry.1 = v) = some entry) :
    entry.1 = v ∧ s.seen[entry.2 - 1]? = some entry ∧ entry.2 ≠ 0 := by
  have same : entry.1 = v := by simpa using find?_some found
  rcases mem_iff_getElem?.mp (mem_of_find?_eq_some found) with ⟨k, present⟩
  have id := numbered.ids k entry present
  rw [id]
  exact ⟨same, present, Nat.succ_ne_zero k⟩

theorem Numbered.checkSeen_spec (numbered : s.Numbered table) (seen : s.checkSeen v ≠ 0) :
    s.seen[s.checkSeen v - 1]? = some (v, s.checkSeen v) := by
  unfold checkSeen at seen ⊢
  cases found : s.seen.find? fun entry => entry.1 = v with
  | none => simp [found] at seen
  | some entry =>
    rcases numbered.seen_of_find? found with ⟨same, present, _⟩
    rw [Option.map_some, Option.getD_some, present, ← same]

theorem Numbered.checkSeen_eq_zero_iff (numbered : s.Numbered table) :
    s.checkSeen v = 0 ↔ v ∉ s.keys := by
  unfold checkSeen keys
  cases found : s.seen.find? fun entry => entry.1 = v with
  | none =>
    have absent := find?_eq_none.mp found
    simp only [Option.map_none, Option.getD_none, true_iff]
    intro member
    rcases mem_map.mp member with ⟨entry, inSeen, same⟩
    exact absent entry inSeen (by simpa using same)
  | some entry =>
    rcases numbered.seen_of_find? found with ⟨same, present, nonzero⟩
    simp only [Option.map_some, Option.getD_some, nonzero, false_iff, not_not]
    exact mem_map.mpr ⟨entry, mem_of_getElem? present, same⟩

section
omit [DecidableEq P]

theorem pushNew_seen : (s.pushNew w table v).seen = s.seen ++ [(v, s.id + 1)] ∧
    (s.pushNew w table v).id = s.id + 1 ∧ (s.pushNew w table v).frozen = s.frozen ∧
    (s.pushNew w table v).todo = s.todo ++ if isBackref table v then [] else [v] := by
  unfold pushNew isBackref
  cases table.bind fun table => table.rlookupPmc v <;> simp [pushInteger]

theorem pushNew_image : (s.pushNew w table v).image = s.image ++
    match table.bind fun table => table.rlookupPmc v with
    | some (constno, idx) =>
      storeOpcode (packIdNew (s.id + 1) packIdBackref) ++
        (storeOpcode (BitVec.ofNat 64 constno) ++ storeOpcode (BitVec.ofNat 64 idx - 1))
    | none =>
      storeOpcode (packIdNew (s.id + 1) packIdNormal) ++ storeOpcode (w.baseType v) := by
  unfold pushNew
  cases table.bind fun table => table.rlookupPmc v <;> simp [pushInteger]

theorem pushNew_length : s.image.length < (s.pushNew w table v).image.length := by
  rw [pushNew_image, length_append]
  have step : ∀ first second : List UInt8, 0 < (first ++ second).length ↔
      first ≠ [] ∨ second ≠ [] := by
    intro first second
    rw [length_pos_iff, Ne, append_eq_nil_iff, not_and_or]
  have opcode : ∀ value, storeOpcode value ≠ [] := by
    intro value empty
    have length := length_storeOpcode value
    rw [empty] at length
    cases length
  apply lt_add_of_pos_right
  cases table.bind fun table => table.rlookupPmc v with
  | none | some found => exact (step _ _).mpr (.inl (opcode _))

theorem pushNew_pushes (new : v ∉ s.keys) : Pushes table s (s.pushNew w table v) [v] := by
  rcases @pushNew_seen _ w table s v with ⟨seen, id, frozen, todo⟩
  have keys : (s.pushNew w table v).keys = s.keys ++ [v] := by
    rw [Freezer.keys, seen, map_append]
    rfl
  have normals : (s.pushNew w table v).normals =
      s.normals ++ if isBackref table v then [] else [v] := by
    rw [Freezer.normals, frozen, todo, ← append_assoc]
    rfl
  refine ⟨⟨?_, ?_, ?_⟩, frozen, ?_, ?_⟩
  · rw [pushNew_image]
    exact prefix_append _ _
  · rw [seen]
    exact prefix_append _ _
  · rw [normals]
    exact prefix_append _ _
  · intro numbered
    constructor
    · rw [id, seen, numbered.id, length_append]
      rfl
    · intro k entry present
      rw [seen] at present
      rcases lt_or_ge k s.seen.length with old | last
      · rw [getElem?_append_left old] at present
        exact numbered.ids k entry present
      rw [getElem?_append_right last, getElem?_singleton] at present
      split at present
      · cases present
        rw [numbered.id]
        omega
      · cases present
    · rw [keys]
      exact List.Nodup.append numbered.nodup (nodup_singleton v) (disjoint_singleton.mpr new)
    · rw [normals, keys, numbered.normals, filter_append]
      cases back : isBackref table v <;> simp [back]
    · have longer := @pushNew_length _ w table s v
      have room := numbered.room
      rw [normals, length_append]
      split <;> simp only [length_nil, length_singleton] <;> omega
  · intro _ p
    rw [keys, mem_append]

end

theorem pushPmc_pushes (numbered : s.Numbered table) (v : Option P) :
    Pushes table s (s.pushPmc w table v) v.toList := by
  cases v with
  | none => exact Pushes.of_image
  | some v =>
    by_cases seen : s.checkSeen v = 0
    · rw [pushPmc, if_neg (not_not.mpr seen)]
      exact pushNew_pushes (numbered.checkSeen_eq_zero_iff.mp seen)
    rw [pushPmc, if_pos seen]
    have known : v ∈ s.keys := by
      by_contra absent
      exact seen (numbered.checkSeen_eq_zero_iff.mpr absent)
    have image : Pushes table s (s.pushInteger (packIdNew (s.checkSeen v) packIdSeen)) [] :=
      Pushes.of_image
    refine ⟨image.grows, image.frozen, image.numbered, ?_⟩
    intro numbered p
    rw [image.mem_keys numbered]
    constructor
    · rintro (inKeys | impossible)
      · exact .inl inKeys
      · cases impossible
    rintro (inKeys | isV)
    · exact .inl inKeys
    · cases mem_singleton.mp isV
      exact .inl known

omit [DecidableEq P] in
theorem pushString_image (value : Option PStr) :
    ∃ bytes, s.pushString table value = { s with image := s.image ++ bytes } := by
  unfold pushString
  rcases table with _ | table
  · exact ⟨_, rfl⟩
  dsimp only
  cases table.rlookupStr value with
  | some idx => exact ⟨_, rfl⟩
  | none => exact ⟨storeOpcode (-1) ++ storeString value, by simp [pushInteger]⟩

theorem pushItem_pushes (numbered : s.Numbered table) (item : Item P) :
    Pushes table s (s.pushItem w table item) item.ref.toList := by
  cases item with
  | integer value | float value => exact Pushes.of_image
  | string value =>
    rcases @pushString_image _ table s value with ⟨bytes, written⟩
    rw [pushItem, written]
    exact Pushes.of_image
  | pmc value => exact pushPmc_pushes numbered value

theorem pushItems_pushes (numbered : s.Numbered table) (items : List (Item P)) :
    Pushes table s (items.foldl (pushItem w table) s) (items.filterMap Item.ref) := by
  induction items generalizing s with
  | nil => exact Pushes.refl s
  | cons item items ih =>
    have first := @pushItem_pushes _ _ w table s numbered item
    have rest := ih (first.numbered numbered)
    have refs : (item :: items).filterMap Item.ref =
        item.ref.toList ++ items.filterMap Item.ref := by
      cases refers : item.ref <;> simp [refers]
    rw [foldl_cons, refs]
    exact first.trans rest

/-- Freezing a PMC sees the PMCs it refers to. -/
theorem freezeObject_pushes (numbered : s.Numbered table) (current : P) :
    Pushes table s (s.freezeObject w table current) (w.refs current) := by
  have items := @pushItems_pushes _ _ w table s numbered (w.obj current).items
  exact items.trans (pushPmc_pushes (items.numbered numbered) _)

end Freezer

end RakudoStar.Freeze

namespace RakudoStar.Freeze

open Packfile Relation

variable [DecidableEq P] {w : World P} {table : Option (FreezeTable P)} {s final : Freezer P}
  {p q : P}

variable (w table) in
/-- A PMC that is frozen refers to another one. -/
def Leads (p q : P) : Prop :=
  isBackref table p = false ∧ q ∈ w.refs p

namespace Freezer

variable (w table) in
/-- All that a PMC refers to has been seen. -/
def Closed (s : Freezer P) (p : P) : Prop :=
  ∀ q, q ∈ w.refs p → q ∈ s.keys

variable (w table) in
/-- Where the loop over the todo list gets to. -/
structure Drains (s final : Freezer P) : Prop where
  grows : Grows s final
  todo : final.todo = []
  numbered : final.Numbered table
  closed : ∀ p, p ∈ final.frozen → p ∈ s.frozen ∨ final.Closed w p
  reached : ∀ p, p ∈ final.keys → ∃ q, q ∈ s.keys ∧ ReflTransGen (Leads w table) q p

section
omit [DecidableEq P]

theorem Grows.mem_keys (grows : Grows s final) (seen : p ∈ s.keys) : p ∈ final.keys :=
  (grows.seen.map Prod.fst).subset seen

section
variable (numbered : s.Numbered table)
include numbered

theorem Numbered.normals_nodup : s.normals.Nodup := by
  rw [numbered.normals]
  exact numbered.nodup.filter _

theorem Numbered.mem_normals : p ∈ s.normals ↔ p ∈ s.keys ∧ isBackref table p = false := by
  rw [numbered.normals, List.mem_filter, Bool.not_eq_true']

theorem Numbered.length_le : s.seen.length ≤ w.pmcs.length := by
  have fits := (List.subperm_of_subset numbered.nodup fun p _ => w.finite p).length_le
  rwa [keys, List.length_map] at fits

theorem Numbered.length_normals_le : s.normals.length ≤ w.pmcs.length :=
  (List.subperm_of_subset numbered.normals_nodup fun p _ => w.finite p).length_le

end

end

/-- The state in which a PMC of the todo list is frozen. -/
def take (s : Freezer P) (current : P) (todo : List P) : Freezer P :=
  { s with todo, frozen := s.frozen ++ [current] }

section
omit [DecidableEq P]

variable {todo : List P} {current : P}

theorem normals_take (next : s.todo = current :: todo) :
    (s.take current todo).normals = s.normals := by
  rw [normals, normals, next]
  exact List.append_assoc _ _ _

theorem Numbered.take (numbered : s.Numbered table)
    (next : s.todo = current :: todo) : (s.take current todo).Numbered table where
  id := numbered.id
  ids := numbered.ids
  nodup := numbered.nodup
  normals := by
    rw [normals_take next]
    exact numbered.normals
  room := by
    rw [normals_take next]
    exact numbered.room

theorem Grows.take (next : s.todo = current :: todo) : Grows s (s.take current todo) where
  image := List.prefix_refl _
  seen := List.prefix_refl _
  normals := by rw [normals_take next]

end

theorem Drains.round {current : P} {todo : List P} (numbered : s.Numbered table)
    (next : s.todo = current :: todo)
    (rest : Drains w table ((s.take current todo).freezeObject w table current) final) :
    Drains w table s final := by
  have pushes := @freezeObject_pushes _ _ w table _ (numbered.take next) current
  have isNormal : current ∈ s.normals := by
    rw [normals, next]
    exact List.mem_append_right _ List.mem_cons_self
  have isCurrent := numbered.mem_normals.mp isNormal
  refine ⟨(Grows.take next).trans (pushes.grows.trans rest.grows), rest.todo, rest.numbered, ?_, ?_⟩
  · intro p frozen
    rcases rest.closed p frozen with before | closed
    · rw [pushes.frozen] at before
      rcases List.mem_append.mp before with old | new
      · exact .inl old
      cases List.mem_singleton.mp new
      right
      intro q refers
      exact rest.grows.mem_keys ((pushes.mem_keys (numbered.take next) q).mpr (.inr refers))
    · exact .inr closed
  intro p seen
  rcases rest.reached p seen with ⟨q, known, path⟩
  rcases (pushes.mem_keys (numbered.take next) q).mp known with old | refers
  · exact ⟨q, old, path⟩
  · exact ⟨current, isCurrent.1, path.head ⟨isCurrent.2, refers⟩⟩

/-- The loop ends if there are as many rounds as PMCs that are not frozen. -/
theorem drain_spec (rounds : Nat) (s : Freezer P) (numbered : s.Numbered table)
    (enough : w.pmcs.length ≤ s.frozen.length + rounds) :
    ∃ final, drain w table rounds s = some final ∧ Drains w table s final := by
  induction rounds generalizing s with
  | zero =>
    have empty : s.todo = [] := by
      have fits := @Numbered.length_normals_le _ w table s numbered
      rw [normals, List.length_append] at fits
      exact List.length_eq_zero_iff.mp (by omega)
    refine ⟨s, by rw [drain, empty], Grows.refl s, empty, numbered, ?_, ?_⟩
    · exact fun p frozen => .inl frozen
    · exact fun p seen => ⟨p, seen, .refl⟩
  | succ rounds ih =>
    cases next : s.todo with
    | nil =>
      refine ⟨s, by rw [drain, next], Grows.refl s, next, numbered, ?_, ?_⟩
      · exact fun p frozen => .inl frozen
      · exact fun p seen => ⟨p, seen, .refl⟩
    | cons current todo =>
      have pushes := @freezeObject_pushes _ _ w table _ (numbered.take next) current
      have fewer : w.pmcs.length ≤
          ((s.take current todo).freezeObject w table current).frozen.length + rounds := by
        rw [pushes.frozen]
        simp only [take, List.length_append, List.length_singleton]
        omega
      rcases ih _ (pushes.numbered (numbered.take next)) fewer with ⟨final, ends, drains⟩
      refine ⟨final, ?_, drains.round numbered next⟩
      rw [drain, next]
      exact ends

end Freezer

/-- Where `freeze` starts. -/
def start (header : Header) (table : Option (FreezeTable P)) : Freezer P :=
  { image := if table.isSome then [] else header.bytes ++ header.slack
    seen := [], todo := [], id := 0, frozen := [] }

variable {header : Header} {root : Option P}

omit [DecidableEq P] in
theorem start_numbered (header : Header) (table : Option (FreezeTable P)) :
    (start header table).Numbered table where
  id := rfl
  ids := by simp [start]
  nodup := List.nodup_nil
  normals := rfl
  room := Nat.zero_le _

variable (w table root) in
/-- What `freeze` does for a root. -/
structure Freezes (begun final : Freezer P) : Prop where
  drains : Freezer.Drains w table begun final
  frozen : begun.frozen = []
  keys : begun.keys = root.toList

theorem freeze_spec (header : Header) (w : World P) (table : Option (FreezeTable P))
    (root : Option P) : ∃ final, freeze header w table root = some final ∧
      Freezes w table root ((start header table).pushPmc w table root) final := by
  have pushes := @Freezer.pushPmc_pushes _ _ w table _ (start_numbered header table) root
  have numbered := pushes.numbered (start_numbered header table)
  have enough : w.pmcs.length ≤
      ((start header table).pushPmc w table root).frozen.length + w.pmcs.length :=
    Nat.le_add_left _ _
  rcases Freezer.drain_spec w.pmcs.length _ numbered enough with ⟨final, ends, drains⟩
  refine ⟨final, ends, drains, pushes.frozen, ?_⟩
  cases root with
  | none => rfl
  | some v =>
    have new : (start header table).checkSeen v = 0 := rfl
    rw [Freezer.pushPmc, if_neg (not_not.mpr new), Freezer.keys, Freezer.pushNew_seen.1]
    rfl

namespace Freezes

variable {begun : Freezer P}

omit [DecidableEq P] in
/-- Just those PMCs are seen that the root leads to. -/
theorem mem_keys_iff (freezes : Freezes w table root begun final) :
    p ∈ final.keys ↔ ∃ first, root = some first ∧ ReflTransGen (Leads w table) first p := by
  constructor
  · intro seen
    rcases freezes.drains.reached p seen with ⟨first, isFirst, path⟩
    rw [freezes.keys, Option.mem_toList] at isFirst
    exact ⟨first, isFirst, path⟩
  rintro ⟨first, isRoot, path⟩
  induction path with
  | refl =>
    apply freezes.drains.grows.mem_keys
    rw [freezes.keys, isRoot]
    exact List.mem_singleton_self first
  | tail _ leads ih =>
    have normal := freezes.drains.numbered.mem_normals.mpr ⟨ih, leads.1⟩
    rw [Freezer.normals, freezes.drains.todo, List.append_nil] at normal
    rcases freezes.drains.closed _ normal with before | closed
    · rw [freezes.frozen] at before
      cases before
    · exact closed _ leads.2

omit [DecidableEq P] in
theorem normals_eq (freezes : Freezes w table root begun final) : final.normals = final.frozen := by
  rw [Freezer.normals, freezes.drains.todo, List.append_nil]

end Freezes

end RakudoStar.Freeze
