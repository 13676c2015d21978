import RakudoStar.Freeze.Shifting

/-!
# The round trip of a graph

The thawer shifts each PMC that the freezer has pushed, round by round.
-/

namespace RakudoStar.Freeze

open Packfile List RakudoStar.Except Option

variable {P : Type} {w : World P} {table : Option (FreezeTable P)}
  {thawTable : Option ThawTable} {place : P → Nat} {base : Nat} {final s : Freezer P}
  {t middle last : Thawer}

variable (w table thawTable place base final) in
/-- The types, the table, and what the freezer has written in the end. -/
structure Setting : Prop where
  lawful : w.Lawful
  tables : TablesMatch place table thawTable
  located : Located place base final
  numbered : final.Numbered table

namespace Follows

theorem withId (follows : Follows w place base final s t) (id : Nat) :
    Follows w place base final { s with id } t :=
  ⟨follows.image, follows.seen, follows.heap, follows.types, follows.todo⟩

theorem place_of_id (follows : Follows w place base final s t) (numbered : s.Numbered table) :
    ((s.id + 1 : Nat) : Int) - 1 = t.seen.length := by
  rw [follows.seen, length_map, numbered.id, Freezer.keys, length_map]
  omega

section
variable (setting : Setting w table thawTable place base final) {v : P}
include setting

theorem id_fits (numbered : s.Numbered table)
    (grows : Freezer.Grows (s.pushNew w table v) final) : s.id + 1 < 2 ^ 62 := by
  have longer := grows.seen.length_le
  have fits := @Freezer.Numbered.length_le _ w table final setting.numbered
  have memory := w.fitsMemory
  rw [Freezer.pushNew_seen.1, length_append, length_singleton, ← numbered.id] at longer
  omega

theorem backref {constno idx : Nat} (numbered : s.Numbered table)
    (lookup : (table.bind fun table => table.rlookupPmc v) = some (constno, idx))
    (grows : Freezer.Grows (s.pushNew w table v) final) (follows : Follows w place base final s t) :
    ∃ last, t.shiftPmc thawTable w.vtableMax = .ok (some (place v), last) ∧
      Follows w place base final (s.pushNew w table v) last ∧ Extends t last := by
  have idFits := id_fits setting numbered grows
  have shape : s.pushNew w table v =
      (let written := ((Freezer.pushInteger { s with id := s.id + 1 }
          (packIdNew (s.id + 1) packIdBackref)).pushInteger (BitVec.ofNat 64 constno)).pushInteger
          (BitVec.ofNat 64 idx - 1)
       { written with seen := written.seen ++ [(v, s.id + 1)] }) := by
    rw [Freezer.pushNew, lookup]
  rw [shape] at grows ⊢
  have inThird := grows.image
  have inSecond := (prefix_append _ _).trans inThird
  rcases (follows.withId (s.id + 1)).integer ((prefix_append _ _).trans inSecond) with
    ⟨first, shiftFirst, afterFirst, extendFirst⟩
  rcases afterFirst.integer inSecond with ⟨second, shiftSecond, afterSecond, extendSecond⟩
  rcases afterSecond.integer inThird with ⟨third, shiftThird, afterThird, extendThird⟩
  rcases table with _ | freezes
  · cases lookup
  rcases thawTable with _ | thaws
  · exact setting.tables.elim
  rcases setting.tables.2 v constno idx lookup with
    ⟨constnoFits, positive, idxFits, olist, isList, isCopy⟩
  refine ⟨_, ?_, afterThird.seeing, extendFirst.trans (extendSecond.trans (extendThird.trans
    ⟨prefix_refl _, rfl, rfl⟩))⟩
  have constnoRead : (BitVec.ofNat 64 constno).toNat = constno := by
    rw [BitVec.toNat_ofNat, Nat.mod_eq_of_lt constnoFits]
  have idxRead : (BitVec.ofNat 64 idx - 1).toInt = ((idx - 1 : Nat) : Int) := by
    have pred : BitVec.ofNat 64 idx - 1 = BitVec.ofNat 64 (idx - 1) := by
      apply BitVec.eq_of_toNat_eq
      have one : (1 : Word).toNat = 1 := rfl
      rw [BitVec.toNat_sub, BitVec.toNat_ofNat, BitVec.toNat_ofNat, one]
      omega
    rw [pred, BitVec.toInt_eq_toNat_of_lt, BitVec.toNat_ofNat, Nat.mod_eq_of_lt (by omega)]
    rw [BitVec.toNat_ofNat, Nat.mod_eq_of_lt (by omega)]
    omega
  have next : ((s.id + 1 : Nat) : Int) - 1 = third.seen.length := by
    rw [follows.place_of_id numbered, afterThird.seen, follows.seen]
    rfl
  have notSeen : ¬packIdBackref = packIdSeen := by decide
  simp only [Thawer.shiftPmc, shiftFirst, ok_bind,
    packIdPmcId_new idFits (show packIdBackref < 4 by decide),
    packIdFlags_new idFits (show packIdBackref < 4 by decide), notSeen, if_false, if_true,
    Thawer.shiftBackref, shiftSecond, shiftThird, constnoRead, isList, idxRead,
    getPmcKeyed_natCast, isCopy, getD_some, next, setPmcKeyed_length]

theorem normal (numbered : s.Numbered table)
    (lookup : (table.bind fun table => table.rlookupPmc v) = none)
    (grows : Freezer.Grows (s.pushNew w table v) final) (follows : Follows w place base final s t) :
    ∃ last, t.shiftPmc thawTable w.vtableMax = .ok (some (place v), last) ∧
      Follows w place base final (s.pushNew w table v) last ∧ Extends t last := by
  have idFits := id_fits setting numbered grows
  have shape : s.pushNew w table v =
      (let written := (Freezer.pushInteger { s with id := s.id + 1 }
          (packIdNew (s.id + 1) packIdNormal)).pushInteger (w.baseType v)
       { written with todo := written.todo ++ [v], seen := written.seen ++ [(v, s.id + 1)] }) := by
    rw [Freezer.pushNew, lookup]
  rw [shape] at grows ⊢
  have inSecond := grows.image
  rcases (follows.withId (s.id + 1)).integer ((prefix_append _ _).trans inSecond) with
    ⟨first, shiftFirst, afterFirst, extendFirst⟩
  rcases afterFirst.integer inSecond with ⟨second, shiftSecond, afterSecond, extendSecond⟩
  have next : ((s.id + 1 : Nat) : Int) - 1 = second.seen.length := by
    rw [follows.place_of_id numbered, afterSecond.seen, follows.seen]
    rfl
  have placed : place v = second.heap.length := by
    rw [afterSecond.heap]
    apply setting.located
    have inNormals := grows.normals
    rw [Follows.normals_snoc] at inNormals
    rcases inNormals with ⟨others, normals⟩
    rw [← normals, append_assoc, getElem?_append_right le_rfl, Nat.sub_self]
    rfl
  rcases setting.lawful.registered v with ⟨positive, known⟩
  have registered : ¬((w.baseType v).toInt ≤ 0 ∨ (w.baseType v).toInt > w.vtableMax) := by
    omega
  have notSeen : ¬packIdNormal = packIdSeen := by decide
  have notBackref : ¬packIdNormal = packIdBackref := by decide
  have creates := @creating _ w place base final _ second v
    { baseType := w.baseType v, items := [], metadata := none } (s.id + 1) afterSecond rfl
  refine ⟨_, ?_, creates, extendFirst.trans (extendSecond.trans ⟨prefix_append _ _, rfl, rfl⟩)⟩
  simp only [Thawer.shiftPmc, shiftFirst, ok_bind,
    packIdPmcId_new idFits (show packIdNormal < 4 by decide),
    packIdFlags_new idFits (show packIdNormal < 4 by decide), notSeen, notBackref, if_false,
    if_true, Thawer.shiftNormal, shiftSecond, registered, next, setPmcKeyed_length, placed]

end

variable [DecidableEq P]

theorem pmc (setting : Setting w table thawTable place base final) {value : Option P}
    (numbered : s.Numbered table) (grows : Freezer.Grows (s.pushPmc w table value) final)
    (follows : Follows w place base final s t) :
    ∃ last, t.shiftPmc thawTable w.vtableMax = .ok (value.map place, last) ∧
      Follows w place base final (s.pushPmc w table value) last ∧ Extends t last := by
  have seenFits : packIdSeen < 4 := by decide
  cases value with
  | none =>
    rcases follows.integer grows.image with ⟨last, shifted, after, extends'⟩
    refine ⟨last, ?_, after, extends'⟩
    have idFits : 0 < 2 ^ 62 := by decide
    simp only [Thawer.shiftPmc, shifted, ok_bind, packIdPmcId_new idFits seenFits,
      packIdFlags_new idFits seenFits, if_true, ne_eq, not_true, if_false, map_none]
  | some v =>
    by_cases unseen : s.checkSeen v = 0
    · rw [Freezer.pushPmc, if_neg (not_not.mpr unseen)] at grows ⊢
      cases lookup : table.bind fun table => table.rlookupPmc v with
      | none => exact follows.normal setting numbered lookup grows
      | some found => exact follows.backref setting numbered lookup grows
    rw [Freezer.pushPmc, if_pos unseen] at grows ⊢
    rcases follows.integer grows.image with ⟨last, shifted, after, extends'⟩
    refine ⟨last, ?_, after, extends'⟩
    have present := numbered.checkSeen_spec unseen
    have inside := (List.getElem?_eq_some_iff.mp present).1
    have longer := grows.seen.length_le
    have fits := @Freezer.Numbered.length_le _ w table final setting.numbered
    have memory := w.fitsMemory
    have idFits : s.checkSeen v < 2 ^ 62 := by
      change s.seen.length ≤ final.seen.length at longer
      omega
    have back : ((s.checkSeen v : Nat) : Int) - 1 = ((s.checkSeen v - 1 : Nat) : Int) := by
      omega
    have copy : last.seen[s.checkSeen v - 1]? = some (some (place v)) := by
      rw [after.seen, getElem?_map]
      change Option.map _ (s.seen.map Prod.fst)[s.checkSeen v - 1]? = _
      rw [getElem?_map, present]
      rfl
    simp only [Thawer.shiftPmc, shifted, ok_bind, packIdPmcId_new idFits seenFits,
      packIdFlags_new idFits seenFits, if_true, ne_eq, unseen, not_false_eq_true, back,
      getPmcKeyed_natCast, copy, getD_some, map_some]

end Follows

variable (place) in
def Item.Copy : Item P → Item Nat → Prop
  | .integer value, .integer copy => copy = value
  | .float value, .float copy => copy = value
  | .string value, .string copy => text copy = text value
  | .pmc value, .pmc copy => copy = value.map place
  | _, _ => False

variable [DecidableEq P]

theorem Follows.items (setting : Setting w table thawTable place base final)
    {program : Thawing} {items : List (Item P)} (shifts : program.Shifts items)
    (numbered : s.Numbered table)
    (grows : Freezer.Grows (items.foldl (Freezer.pushItem w table) s) final)
    (follows : Follows w place base final s t) :
    ∃ copies last, Thawer.runThawing thawTable w.vtableMax program t = .ok (copies, last) ∧
      List.Forall₂ (Item.Copy place) items copies ∧
      Follows w place base final (items.foldl (Freezer.pushItem w table) s) last ∧
      Extends t last := by
  induction items generalizing program s t with
  | nil =>
    cases program with
    | done => exact ⟨[], t, rfl, .nil, follows, Extends.refl t⟩
    | _ => exact shifts.elim
  | cons item items ih =>
    have pushes := @Freezer.pushItem_pushes _ _ w table s numbered item
    have others := @Freezer.pushItems_pushes _ _ w table _ (pushes.numbered numbered) items
    have first : Freezer.Grows (s.pushItem w table item) final := others.grows.trans grows
    have proceed : ∀ {next : Thawing} {copy : Item Nat} {middle}, next.Shifts items →
        Item.Copy place item copy →
        Follows w place base final (s.pushItem w table item) middle → Extends t middle →
        (∀ copies last, Thawer.runThawing thawTable w.vtableMax next middle = .ok (copies, last) →
          Thawer.runThawing thawTable w.vtableMax program t = .ok (copy :: copies, last)) →
        ∃ copies last, Thawer.runThawing thawTable w.vtableMax program t = .ok (copies, last) ∧
          List.Forall₂ (Item.Copy place) (item :: items) copies ∧
          Follows w place base final ((item :: items).foldl (Freezer.pushItem w table) s) last ∧
          Extends t last := by
      intro next copy middle shifts isCopy between extends' whole
      rcases ih shifts (pushes.numbered numbered) grows between with
        ⟨copies, last, ran, areCopies, after, extendMore⟩
      exact ⟨copy :: copies, last, whole copies last ran, .cons isCopy areCopies, after,
        extends'.trans extendMore⟩
    -- the program shifts what the first item is, or nothing at all
    cases program <;> cases item <;> try exact shifts.elim
    case shiftInteger.integer next value =>
      rcases follows.integer first.image with ⟨middle, shifted, between, extends'⟩
      refine @proceed _ (.integer value) _ shifts rfl between extends' fun copies last ran => ?_
      rw [Thawer.runThawing, shifted, ok_bind]
      simp only [ran, ok_bind]
    case shiftFloat.float next value =>
      rcases follows.integer first.image with ⟨middle, shifted, between, extends'⟩
      refine @proceed _ (.float value) _ shifts rfl between extends' fun copies last ran => ?_
      rw [Thawer.runThawing, Thawer.shiftFloat, shifted, ok_bind]
      simp only [ran, ok_bind]
    case shiftString.string next value =>
      rcases follows.string setting.tables first.image with
        ⟨found, middle, shifted, same, between, extends'⟩
      refine @proceed _ (.string found) _ shifts same between extends' fun copies last ran => ?_
      rw [Thawer.runThawing, shifted, ok_bind]
      simp only [same, ran, ok_bind]
    case shiftPmc.pmc next value =>
      rcases follows.pmc setting numbered first with ⟨middle, shifted, between, extends'⟩
      refine @proceed _ (.pmc (value.map place)) _ shifts rfl between extends'
        fun copies last ran => ?_
      have isNull : (value.map place).isNone = value.isNone := by cases value <;> rfl
      rw [Thawer.runThawing, shifted, ok_bind]
      simp only [isNull, ran, ok_bind]

end RakudoStar.Freeze

namespace RakudoStar.Freeze

open Packfile

variable {P α : Type} {w : World P} {place : P → Nat} {heap : List Created}

variable (w place) in
/-- A PMC and its copy. -/
structure Copied (p : P) (created : Created) : Prop where
  baseType : created.baseType = w.baseType p
  items : List.Forall₂ (Item.Copy place) (w.obj p).items created.items
  metadata : created.metadata = (w.obj p).metadata.map place

variable (w place heap final) in
/-- What holds between two rounds. -/
structure Progress (s : Freezer P) (t : Thawer) : Prop where
  follows : Follows w place heap.length final s t
  kept : heap <+: t.heap
  thawed : t.thawed = s.frozen.map place
  finished : t.finished = []
  copied : ∀ k p, s.frozen[k]? = some p →
    ∃ created, t.heap[heap.length + k]? = some created ∧ Copied w place p created

theorem prefix_modify {part whole : List α} {i : Nat} (f : α → α)
    (begins : part <+: whole) (behind : part.length ≤ i) : part <+: whole.modify i f := by
  rcases begins with ⟨rest, rfl⟩
  rw [List.prefix_iff_getElem?]
  intro j inside
  rw [List.getElem?_modify_ne f _ (by omega), List.getElem?_append_left inside,
    List.getElem?_eq_getElem inside]

theorem getElem?_of_prefix {part whole : List α} {i : Nat} {x : α}
    (begins : part <+: whole) (present : part[i]? = some x) : whole[i]? = some x := by
  rcases begins with ⟨rest, rfl⟩
  rw [List.getElem?_append_left (List.getElem?_eq_some_iff.mp present).1, present]

theorem related_getElem? {β : Type} {R : α → β → Prop} {xs : List α} {ys : List β} {i : Nat}
    {y : β} (related : List.Forall₂ R xs ys) (present : ys[i]? = some y) :
    ∃ x, xs[i]? = some x ∧ R x y := by
  induction related generalizing i with
  | nil => cases present
  | cons head _ ih =>
    cases i with
    | zero =>
      cases present
      exact ⟨_, rfl, head⟩
    | succ i => exact ih present

theorem Follows.placed {base i : Nat} {p : P} (follows : Follows w place base final s t)
    (present : s.normals[i]? = some p) :
    ∃ k : Nat, t.todo[i]? = some (k : Int) ∧ t.seen[k]? = some (some (place p)) := by
  rcases related_getElem? follows.todo present with ⟨_, onTodo, k, rfl, isKey⟩
  refine ⟨k, onTodo, ?_⟩
  rw [follows.seen, List.getElem?_map, isKey]
  rfl

theorem Follows.take {base : Nat} {current : P} {todo : List P} (next : s.todo = current :: todo)
    (follows : Follows w place base final s t) (thawed : List Nat) :
    Follows w place base final (s.take current todo) { t with thawed } where
  image := follows.image
  seen := follows.seen
  heap := by
    rw [Freezer.normals_take next]
    exact follows.heap
  types := by
    rw [Freezer.normals_take next]
    exact follows.types
  todo := by
    rw [Freezer.normals_take next]
    exact follows.todo

theorem Follows.modify {base : Nat} (follows : Follows w place base final s t) (i : Nat)
    (items : List (Item Nat)) (metadata : Option Nat) : Follows w place base final s
      { t with heap := t.heap.modify i fun created => { created with items, metadata } } where
  image := follows.image
  seen := follows.seen
  heap := by
    rw [List.length_modify]
    exact follows.heap
  types := by
    intro k p present
    rcases follows.types k p present with ⟨created, inHeap, same⟩
    by_cases here : i = base + k
    · cases here
      rw [List.getElem?_modify_eq, inHeap]
      exact ⟨_, rfl, same⟩
    · rw [List.getElem?_modify_ne _ _ here, inHeap]
      exact ⟨_, rfl, same⟩
  todo := follows.todo

variable [DecidableEq P]

theorem Progress.round {current : P} {todo : List P}
    (setting : Setting w table thawTable place heap.length final) (numbered : s.Numbered table)
    (next : s.todo = current :: todo)
    (grows : Freezer.Grows ((s.take current todo).freezeObject w table current) final)
    (progress : Progress w place heap final s t) : ∃ idx last, t.todo[s.frozen.length]? = some idx ∧
      t.thawObject thawTable w.vtableMax w.thaw s.frozen.length idx = .ok last ∧
      Progress w place heap final ((s.take current todo).freezeObject w table current) last := by
  have follows := progress.follows
  have isNext : s.normals[s.frozen.length]? = some current := by
    rw [Freezer.normals, next, List.getElem?_append_right le_rfl, Nat.sub_self]
    rfl
  have objectPushes := @Freezer.freezeObject_pushes _ _ w table _ (numbered.take next) current
  have itemsPush :=
    @Freezer.pushItems_pushes _ _ w table _ (numbered.take next) (w.obj current).items
  have itemsNumbered := itemsPush.numbered (numbered.take next)
  have metadataPush := @Freezer.pushPmc_pushes _ _ w table _ itemsNumbered (w.obj current).metadata
  have located : place current = heap.length + s.frozen.length := by
    apply setting.located
    rcases (Freezer.Grows.take next).normals.trans
      (objectPushes.grows.normals.trans grows.normals) with ⟨others, normals⟩
    rw [← normals, List.getElem?_append_left (List.getElem?_eq_some_iff.mp isNext).1, isNext]
  rcases follows.types _ current isNext with ⟨created, inHeap, type⟩
  rcases follows.placed isNext with ⟨k, onTodo, isCopy⟩
  have taken := follows.take next (t.thawed ++ [place current])
  have shifts := setting.lawful.shifts current
  rw [← type] at shifts
  rcases taken.items setting shifts (numbered.take next) (metadataPush.grows.trans grows) with
    ⟨copies, middle, ran, areCopies, between, extendItems⟩
  rcases between.pmc setting itemsNumbered grows with ⟨last, shifted, after, extendLast⟩
  have extends' := extendItems.trans extendLast
  refine ⟨k, _, onTodo, ?_, after.modify (place current) copies
    ((w.obj current).metadata.map place), ?_, ?_, ?_, ?_⟩
  · rw [Thawer.thawObject, getPmcKeyed_natCast, isCopy, Except.ok_bind]
    simp only [Option.getD_some, located, inHeap]
    rw [← located, ran, Except.ok_bind]
    simp only [shifted, Except.ok_bind]
  · exact prefix_modify _ (progress.kept.trans extends'.heap) (by omega)
  · change last.thawed = _
    rw [extends'.thawed, objectPushes.frozen, Freezer.take, List.map_append, ← progress.thawed]
    rfl
  · exact extends'.finished.trans progress.finished
  · intro i p frozen
    rw [objectPushes.frozen] at frozen
    change (s.frozen ++ [current])[i]? = some p at frozen
    rcases Nat.lt_or_ge i s.frozen.length with old | new
    · rw [List.getElem?_append_left old] at frozen
      rcases progress.copied i p frozen with ⟨before, inOld, copied⟩
      refine ⟨before, ?_, copied⟩
      have elsewhere : place current ≠ heap.length + i := by omega
      rw [List.getElem?_modify_ne _ _ elsewhere]
      exact getElem?_of_prefix extends'.heap inOld
    rw [List.getElem?_append_right new, List.getElem?_singleton] at frozen
    split at frozen
    · case isTrue isLast =>
        cases frozen
        have here : heap.length + i = place current := by omega
        rw [here, List.getElem?_modify_eq, located, getElem?_of_prefix extends'.heap inHeap]
        exact ⟨_, rfl, type, areCopies, rfl⟩
    · cases frozen

omit [DecidableEq P] in
theorem Progress.loop_end {types : Word → Thawing} {more : Nat} (empty : s.todo = [])
    (progress : Progress w place heap final s t) :
    t.thawLoop thawTable w.vtableMax types more s.frozen.length = .ok t := by
  have length := progress.follows.todo.length_eq
  rw [Freezer.normals, empty, List.append_nil] at length
  have none : t.todo[s.frozen.length]? = none := List.getElem?_eq_none_iff.mpr length.le
  cases more <;> rw [Thawer.thawLoop, none]

theorem grows_of_drain (rounds : Nat) (numbered : s.Numbered table)
    (drained : Freezer.drain w table rounds s = some final) :
    Freezer.Grows s final ∧ final.todo = [] := by
  induction rounds generalizing s with
  | zero =>
    rw [Freezer.drain] at drained
    cases next : s.todo with
    | nil =>
      rw [next] at drained
      cases drained
      exact ⟨Freezer.Grows.refl _, next⟩
    | cons current todo =>
      rw [next] at drained
      cases drained
  | succ rounds ih =>
    rw [Freezer.drain] at drained
    cases next : s.todo with
    | nil =>
      rw [next] at drained
      cases drained
      exact ⟨Freezer.Grows.refl _, next⟩
    | cons current todo =>
      rw [next] at drained
      have pushes := @Freezer.freezeObject_pushes _ _ w table _ (numbered.take next) current
      rcases ih (pushes.numbered (numbered.take next)) drained with ⟨grows, empty⟩
      exact ⟨(Freezer.Grows.take next).trans (pushes.grows.trans grows), empty⟩

theorem Progress.loop (rounds more : Nat)
    (setting : Setting w table thawTable place heap.length final) (numbered : s.Numbered table)
    (drained : Freezer.drain w table rounds s = some final)
    (enough : final.normals.length ≤ s.frozen.length + more)
    (progress : Progress w place heap final s t) :
    ∃ last, t.thawLoop thawTable w.vtableMax w.thaw more s.frozen.length = .ok last ∧
      Progress w place heap final final last := by
  induction rounds generalizing s t more with
  | zero =>
    rw [Freezer.drain] at drained
    cases next : s.todo with
    | nil =>
      rw [next] at drained
      cases drained
      exact ⟨t, progress.loop_end next, progress⟩
    | cons current todo =>
      rw [next] at drained
      cases drained
  | succ rounds ih =>
    rw [Freezer.drain] at drained
    cases next : s.todo with
    | nil =>
      rw [next] at drained
      cases drained
      exact ⟨t, progress.loop_end next, progress⟩
    | cons current todo =>
      rw [next] at drained
      have pushes := @Freezer.freezeObject_pushes _ _ w table _ (numbered.take next) current
      have numberedNext := pushes.numbered (numbered.take next)
      have grows := (grows_of_drain rounds numberedNext drained).1
      rcases progress.round setting numbered next grows with ⟨idx, middle, onTodo, thawed, between⟩
      have frozen : ((s.take current todo).freezeObject w table current).frozen.length =
          s.frozen.length + 1 := by
        rw [pushes.frozen]
        exact List.length_append
      cases more with
      | zero =>
        have longer := grows.normals.length_le
        rw [Freezer.normals, List.length_append, frozen] at longer
        omega
      | succ more =>
        rcases ih more numberedNext drained (by omega) between with ⟨last, looped, after⟩
        refine ⟨last, ?_, after⟩
        rw [frozen] at looped
        rw [Thawer.thawLoop, onTodo]
        simp only [thawed, Except.ok_bind]
        exact looped

end RakudoStar.Freeze
