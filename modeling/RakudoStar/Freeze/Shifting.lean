import RakudoStar.Freeze.Numbering
import RakudoStar.Freeze.Thawer

/-!
# Shifting what was pushed

The thawer's list of seen PMCs holds copies of the keys of the seen hash, its todo list the
places of those on the freezer's; each was created at the next address.
-/

namespace RakudoStar.Freeze

open Packfile List Nat

variable {id flags : Nat} (array : List (Option Nat))

theorem packIdNew_toNat (idFits : id < 2 ^ 62) (flagsFit : flags < 4) :
    (packIdNew id flags).toNat = 4 * id + flags := by
  have flagsRead : (BitVec.ofNat 64 flags &&& 3).toNat = flags := by
    rw [BitVec.toNat_and, BitVec.toNat_ofNat, mod_eq_of_lt (by omega)]
    exact (and_two_pow_sub_one_eq_mod flags 2).trans (mod_eq_of_lt flagsFit)
  have idRead : (BitVec.ofNat 64 id * 4).toNat = 2 ^ 2 * id := by
    have four : (4 : Word).toNat = 4 := rfl
    rw [BitVec.toNat_mul, BitVec.toNat_ofNat, four, @mod_eq_of_lt id _ (by omega),
      mod_eq_of_lt (by omega)]
    exact mul_comm _ _
  rw [packIdNew, BitVec.toNat_or, idRead, flagsRead, ← two_pow_add_eq_or_of_lt flagsFit]

theorem packIdPmcId_new (idFits : id < 2 ^ 62) (flagsFit : flags < 4) :
    packIdPmcId (packIdNew id flags) = id := by
  rw [packIdPmcId, packIdNew_toNat idFits flagsFit]
  omega

theorem packIdFlags_new (idFits : id < 2 ^ 62) (flagsFit : flags < 4) :
    packIdFlags (packIdNew id flags) = flags := by
  rw [packIdFlags, BitVec.toNat_and, packIdNew_toNat idFits flagsFit]
  have modulo := and_two_pow_sub_one_eq_mod (4 * id + flags) 2
  change (4 * id + flags) &&& 3 = flags
  rw [modulo]
  omega

theorem getPmcKeyed_natCast (key : Nat) : getPmcKeyed array key = .ok (array[key]?.getD none) := by
  have nonNegative : ¬(key : Int) < 0 := by omega
  simp only [getPmcKeyed, nonNegative, if_false, Int.toNat_natCast]

theorem setPmcKeyed_length (src : Option Nat) :
    setPmcKeyed array array.length src = .ok (array ++ [src]) := by
  have nonNegative : ¬(array.length : Int) < 0 := by omega
  simp only [setPmcKeyed, nonNegative, if_false, Int.toNat_natCast]
  rw [Nat.add_sub_cancel_left, replicate_one, set_append_right _ _ le_rfl, Nat.sub_self]
  rfl

variable {P : Type} {w : World P} {table : Option (FreezeTable P)}
  {thawTable : Option ThawTable} {place : P → Nat} {base : Nat} {final s : Freezer P}
  {t middle last : Thawer}

/-- The table that is thawed from is the one that was frozen into. -/
def TablesMatch (place : P → Nat) : Option (FreezeTable P) → Option ThawTable → Prop
  | none, none => True
  | some freezes, some thaws =>
    (∀ value idx, freezes.rlookupStr value = some idx →
      idx < 2 ^ 63 ∧ ∃ found, thaws.strings[idx]? = some found ∧ text found = text value) ∧
    ∀ v constno idx, freezes.rlookupPmc v = some (constno, idx) →
      constno < 2 ^ 64 ∧ 0 < idx ∧ idx < 2 ^ 63 ∧
        ∃ olist, thaws.lists[constno]? = some olist ∧ olist[idx - 1]? = some (some (place v))
  | _, _ => False

/-- The PMCs that were put on the todo list are created one after the other. -/
def Located (place : P → Nat) (base : Nat) (final : Freezer P) : Prop :=
  ∀ k p, final.normals[k]? = some p → place p = base + k

variable (w place base final) in
/-- The thawer has come as far as the freezer was. -/
structure Follows (s : Freezer P) (t : Thawer) : Prop where
  image : s.image ++ t.image = final.image
  seen : t.seen = s.keys.map fun p => some (place p)
  heap : t.heap.length = base + s.normals.length
  types : ∀ k p, s.normals[k]? = some p →
    ∃ created, t.heap[base + k]? = some created ∧ created.baseType = w.baseType p
  todo : List.Forall₂ (fun idx p => ∃ k : Nat, idx = (k : Int) ∧ s.keys[k]? = some p)
    t.todo s.normals

/-- Shifting creates PMCs and leaves alone those that are there. -/
structure Extends (t last : Thawer) : Prop where
  heap : t.heap <+: last.heap
  thawed : last.thawed = t.thawed
  finished : last.finished = t.finished

theorem Extends.refl (t : Thawer) : Extends t t :=
  ⟨prefix_refl _, rfl, rfl⟩

theorem Extends.trans (first : Extends t middle) (second : Extends middle last) : Extends t last :=
  ⟨first.heap.trans second.heap, second.thawed.trans first.thawed,
    second.finished.trans first.finished⟩

namespace Follows

theorem written {bytes : List UInt8} (follows : Follows w place base final s t)
    (inFinal : s.image ++ bytes <+: final.image) : ∃ rest, t.image = bytes ++ rest ∧
      Follows w place base final { s with image := s.image ++ bytes } { t with image := rest } := by
  rw [← follows.image] at inFinal
  rcases (prefix_append_right_inj _).mp inFinal with ⟨rest, split⟩
  refine ⟨rest, split.symm, ?_, follows.seen, follows.heap, follows.types, follows.todo⟩
  rw [← follows.image, ← split]
  exact append_assoc _ _ _

theorem integer {value : Word} (follows : Follows w place base final s t)
    (inFinal : (s.pushInteger value).image <+: final.image) :
    ∃ last, t.shiftInteger = .ok (value, last) ∧
      Follows w place base final (s.pushInteger value) last ∧ Extends t last := by
  rcases follows.written inFinal with ⟨rest, image, after⟩
  refine ⟨_, ?_, after, prefix_refl _, rfl, rfl⟩
  rw [Thawer.shiftInteger, image, fetchOpcode_store]
  rfl

theorem inline {value : Option PStr} (follows : Follows w place base final s t)
    (inFinal : s.image ++ storeString value <+: final.image) :
    ∃ found rest, fetchString t.image = .ok (found, rest) ∧ text found = text value ∧
      Follows w place base final { s with image := s.image ++ storeString value }
        { t with image := rest } := by
  rcases follows.written inFinal with ⟨rest, image, after⟩
  rcases fetchString_store value rest with ⟨found, fetched, same⟩
  exact ⟨found, rest, by rw [image, fetched], same, after⟩

theorem string {value : Option PStr} (follows : Follows w place base final s t)
    (tables : TablesMatch place table thawTable)
    (inFinal : (s.pushString table value).image <+: final.image) :
    ∃ found last, t.shiftString thawTable = .ok (found, last) ∧ text found = text value ∧
      Follows w place base final (s.pushString table value) last ∧ Extends t last := by
  rcases table with _ | freezes <;> rcases thawTable with _ | thaws
  · rcases follows.inline inFinal with ⟨found, rest, fetched, same, after⟩
    refine ⟨found, _, ?_, same, after, prefix_refl _, rfl, rfl⟩
    simp only [Thawer.shiftString, fetched, Except.ok_bind]
  · exact tables.elim
  · exact tables.elim
  rw [Freezer.pushString] at inFinal ⊢
  cases lookup : freezes.rlookupStr value with
  | some idx =>
    rw [lookup] at inFinal
    rcases tables.1 value idx lookup with ⟨fits, found, present, same⟩
    rcases follows.integer inFinal with ⟨last, shifted, after, extends'⟩
    have index : (BitVec.ofNat 64 idx).toNat = idx := by
      rw [BitVec.toNat_ofNat, mod_eq_of_lt (by omega)]
    have nonNegative : (BitVec.ofNat 64 idx).toInt ≥ 0 := by
      rw [BitVec.toInt_eq_toNat_of_lt (by rw [index]; omega)]
      omega
    refine ⟨found, last, ?_, same, after, extends'⟩
    rw [Thawer.shiftString, shifted, Except.ok_bind]
    simp only [nonNegative, if_true, index, present]
  | none =>
    rw [lookup] at inFinal
    have inFirst : (s.pushInteger (-1)).image <+: final.image := (prefix_append _ _).trans inFinal
    rcases follows.integer inFirst with ⟨middle, shifted, between, first⟩
    rcases between.inline inFinal with ⟨found, rest, fetched, same, after⟩
    have negative : ¬(-1 : Word).toInt ≥ 0 := by decide
    refine ⟨found, _, ?_, same, after, first.trans ⟨prefix_refl _, rfl, rfl⟩⟩
    rw [Thawer.shiftString, shifted, Except.ok_bind]
    simp only [negative, if_false, fetched, Except.ok_bind]

theorem places {todo : List Int} {normals keys : List P} (v : P)
    (places : List.Forall₂ (fun idx p => ∃ k : Nat, idx = (k : Int) ∧ keys[k]? = some p)
      todo normals) :
    List.Forall₂ (fun idx p => ∃ k : Nat, idx = (k : Int) ∧ (keys ++ [v])[k]? = some p)
      todo normals := by
  apply places.imp
  rintro idx p ⟨k, same, present⟩
  have inside := (List.getElem?_eq_some_iff.mp present).1
  exact ⟨k, same, by rw [getElem?_append_left inside, present]⟩

theorem keys_snoc (s : Freezer P) (v : P) (id : Nat) (todo : List P) :
    Freezer.keys { s with todo, seen := s.seen ++ [(v, id)] } = s.keys ++ [v] :=
  map_append

theorem normals_snoc (s : Freezer P) (v : P) (seen : List (P × Nat)) :
    Freezer.normals { s with todo := s.todo ++ [v], seen } = s.normals ++ [v] :=
  (append_assoc _ _ _).symm

theorem seeing {v : P} (follows : Follows w place base final s t) :
    Follows w place base final { s with seen := s.seen ++ [(v, id)] }
      { t with seen := t.seen ++ [some (place v)] } where
  image := follows.image
  seen := by
    rw [follows.seen, keys_snoc, map_append]
    rfl
  heap := follows.heap
  types := follows.types
  todo := by
    rw [keys_snoc]
    exact places v follows.todo

theorem creating {v : P} {created : Created} {id : Nat}
    (follows : Follows w place base final s t) (type : created.baseType = w.baseType v) :
    Follows w place base final { s with todo := s.todo ++ [v], seen := s.seen ++ [(v, id)] }
      { t with
        heap := t.heap ++ [created], seen := t.seen ++ [some (place v)]
        todo := t.todo ++ [(t.seen.length : Int)] } where
  image := follows.image
  seen := by
    rw [follows.seen, keys_snoc, map_append]
    rfl
  heap := by
    rw [normals_snoc, length_append, length_append, follows.heap, add_assoc]
    rfl
  types := by
    intro k p present
    rw [normals_snoc] at present
    rcases lt_or_ge k s.normals.length with old | new
    · rw [getElem?_append_left old] at present
      rcases follows.types k p present with ⟨found, inHeap, same⟩
      have inside := (List.getElem?_eq_some_iff.mp inHeap).1
      exact ⟨found, by rw [getElem?_append_left inside, inHeap], same⟩
    rw [getElem?_append_right new, getElem?_singleton] at present
    have heap := follows.heap
    split at present
    · case isTrue last =>
        cases present
        have isLast : base + k - t.heap.length = 0 := by omega
        refine ⟨created, ?_, type⟩
        rw [getElem?_append_right (by omega), isLast]
        rfl
    · cases present
  todo := by
    have length : t.seen.length = s.keys.length := by rw [follows.seen, length_map]
    rw [keys_snoc, normals_snoc]
    refine rel_append (places v follows.todo) (.cons ⟨t.seen.length, rfl, ?_⟩ .nil)
    rw [length, getElem?_append_right le_rfl, Nat.sub_self]
    rfl

end Follows

end RakudoStar.Freeze
