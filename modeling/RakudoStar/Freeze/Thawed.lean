import RakudoStar.Freeze.RoundTrip
import RakudoStar.Freeze.ConstTable

/-!
# Thawing what was frozen

The image is read to its end. Each frozen PMC is created, thawed and finished once, and the
copies make up a graph of the same shape.
-/

namespace RakudoStar.Freeze

open Packfile List RakudoStar.Except

variable {P : Type} {w : World P} {table : Option (FreezeTable P)}
  {thawTable : Option ThawTable} {place : P → Nat} {heap : List Created} {final s : Freezer P}
  {t : Thawer} {header : Header} {root : Option P}

/-- The thawer before it shifts the root. -/
def thawStart (heap : List Created) (image : List UInt8) : Thawer :=
  { image, seen := [], todo := [], heap, thawed := [], finished := [] }

theorem TablesMatch.isSome (tables : TablesMatch place table thawTable) :
    table.isSome = thawTable.isSome := by
  rcases table with _ | freezes <;> rcases thawTable with _ | thaws
  · rfl
  · exact tables.elim
  · exact tables.elim
  · rfl

theorem skipHeader_start (header : Header) (tables : TablesMatch place table thawTable)
    (rest : List UInt8) :
    skipHeader header thawTable ((start header table).image ++ rest) = .ok rest := by
  rw [start, skipHeader, ← tables.isSome]
  cases table with
  | some freezes => rfl
  | none =>
    have length : (header.bytes ++ header.slack).length = headerLength := by
      rw [length_append, header.length_bytes, header.length_slack]
      rfl
    have enough : ¬(header.bytes ++ header.slack ++ rest).length < packfileHeaderBytes := by
      rw [length_append, length]
      exact not_lt.mpr (le_trans (by decide) (Nat.le_add_right headerLength _))
    have taken : (header.bytes ++ header.slack ++ rest).take packfileHeaderBytes =
        header.bytes := by
      rw [append_assoc]
      exact take_left' header.length_bytes
    simp only [Option.isSome_none, Bool.false_eq_true, if_false, enough, taken, header.validated,
      ok_bind, drop_left' length]

theorem follows_start (inFinal : (start header table).image <+: final.image) :
    ∃ rest, final.image = (start header table).image ++ rest ∧
      Follows w place heap.length final (start header table) (thawStart heap rest) := by
  rcases inFinal with ⟨rest, split⟩
  refine ⟨rest, split.symm, split, rfl, rfl, ?_, .nil⟩
  intro k p present
  cases present

theorem finish_spec (todo : List Int) (frozen : List P) (seen : List (Option Nat)) (t : Thawer)
    (isSeen : t.seen = seen) (places : List.Forall₂ (fun idx p => ∃ k : Nat, idx = (k : Int) ∧
      seen[k]? = some (some (place p))) todo frozen) :
    Thawer.finish todo t = .ok { t with finished := t.finished ++ frozen.map place } := by
  induction places generalizing t with
  | nil => rw [Thawer.finish, map_nil, append_nil]
  | @cons idx p todo frozen head _ ih =>
    rcases head with ⟨k, rfl, present⟩
    subst isSeen
    rw [Thawer.finish, getPmcKeyed_natCast, present, ok_bind]
    simp only [Option.getD_some]
    rw [ih { t with finished := t.finished ++ [place p] } rfl, map_cons]
    simp only [append_assoc, singleton_append]

theorem Follows.all_placed {base : Nat} (follows : Follows w place base final s t) :
    List.Forall₂ (fun idx p => ∃ k : Nat, idx = (k : Int) ∧
      t.seen[k]? = some (some (place p))) t.todo s.normals := by
  apply follows.todo.imp
  rintro idx p ⟨k, same, isKey⟩
  refine ⟨k, same, ?_⟩
  rw [follows.seen, getElem?_map, isKey]
  rfl

variable (w place heap final) in
/-- What thawing makes of the image of a graph. -/
structure Thawed (t : Thawer) : Prop where
  image : t.image = []
  kept : heap <+: t.heap
  length : t.heap.length = heap.length + final.frozen.length
  copied : ∀ k p, final.frozen[k]? = some p →
    ∃ created, t.heap[heap.length + k]? = some created ∧ Copied w place p created
  seen : t.seen = final.keys.map fun p => some (place p)
  thawed : t.thawed = final.frozen.map place
  finished : t.finished = final.frozen.map place

variable [DecidableEq P]

theorem thaw_freeze (lawful : w.Lawful) (tables : TablesMatch place table thawTable)
    (located : Located place heap.length final) (frozen : freeze header w table root = some final) :
    ∃ t, thaw header thawTable w.vtableMax w.thaw heap final.image = .ok t ∧
      Thawed w place heap final t := by
  rcases freeze_spec header w table root with ⟨same, isFinal, freezes⟩
  cases isFinal.symm.trans frozen
  have setting : Setting w table thawTable place heap.length final :=
    ⟨lawful, tables, located, freezes.drains.numbered⟩
  have numbered := start_numbered header table
  have pushes := @Freezer.pushPmc_pushes _ _ w table _ numbered root
  have grows := pushes.grows.trans freezes.drains.grows
  rcases @follows_start _ w table place heap final header grows.image with ⟨rest, image, atStart⟩
  rcases atStart.pmc setting numbered freezes.drains.grows with
    ⟨begun, shifted, afterRoot, extended⟩
  have progress : Progress w place heap final
      ((start header table).pushPmc w table root) begun := by
    refine ⟨afterRoot, extended.heap, ?_, extended.finished, ?_⟩
    · rw [extended.thawed, freezes.frozen]
      rfl
    intro k p present
    rw [freezes.frozen] at present
    cases present
  have enough : final.normals.length ≤
      ((start header table).pushPmc w table root).frozen.length + final.image.length :=
    Nat.le_add_left_of_le freezes.drains.numbered.room
  rcases progress.loop w.pmcs.length final.image.length setting (pushes.numbered numbered) frozen
    enough with ⟨last, looped, after⟩
  have isRoot : ((start header table).pushPmc w table root).frozen.length = 0 := by
    rw [freezes.frozen]
    rfl
  rw [isRoot] at looped
  have finished := finish_spec last.todo final.normals last.seen last rfl after.follows.all_placed
  rw [freezes.normals_eq] at finished
  refine ⟨{ last with finished := last.finished ++ final.frozen.map place }, ?_, ?_⟩
  · rw [thawStart] at shifted
    rw [thaw, image, skipHeader_start header tables, ok_bind, ← image]
    simp only [shifted, ok_bind]
    simp only [looped, ok_bind]
    exact finished
  refine ⟨?_, after.kept, ?_, after.copied, after.follows.seen, after.thawed, ?_⟩
  · exact self_eq_append_right.mp after.follows.image.symm
  · exact freezes.normals_eq ▸ after.follows.heap
  · change last.finished ++ _ = _
    rw [after.finished]
    rfl

end RakudoStar.Freeze

namespace RakudoStar.Freeze

open Packfile Relation

variable [DecidableEq P] {str : List (Option PStr)} {i : Nat} {c p q : P} {constants : List P}
  {hash : PmcHash P Nat} {finals : List (Freezer P)}

/-- The PMCs that are created for the constants. -/
def allNormals (finals : List (Freezer P)) : List P :=
  finals.flatMap Freezer.normals

theorem freezes_of_frozen {table : Option (FreezeTable P)} {root : Option P}
    (frozen : freeze header w table root = some final) :
    Freezes w table root ((start header table).pushPmc w table root) final := by
  rcases freeze_spec header w table root with ⟨same, isFinal, freezes⟩
  cases isFinal.symm.trans frozen
  exact freezes

theorem isBackref_iff : isBackref (some (freezeTable str hash)) p = true ↔ p ∈ PmcHash.keys hash :=
  rlookupPmc_isSome_iff

theorem mem_keys_iff_of_frozen
    (frozen : freeze header w (some (freezeTable str hash)) (some c) = some final) :
    p ∈ PmcHash.keys hash ∨ p ∈ final.keys ↔ p ∈ PmcHash.keys hash ∨ p ∈ final.normals := by
  have numbered := (freezes_of_frozen frozen).drains.numbered
  rw [numbered.mem_normals, ← Bool.not_eq_true, isBackref_iff]
  tauto

section
variable (packs : Packs header w str i constants hash finals)
include packs

theorem Packs.nodup :
    (allNormals finals).Nodup ∧ ∀ p, p ∈ allNormals finals → p ∉ PmcHash.keys hash := by
  induction packs with
  | nil i hash => exact ⟨List.nodup_nil, by simp [allNormals]⟩
  | @cons i c constants hash final finals frozen _ ih =>
    rcases ih with ⟨nodup, unknown⟩
    have numbered := (freezes_of_frozen frozen).drains.numbered
    have later : ∀ p, p ∈ allNormals finals → p ∉ PmcHash.keys hash ∧ p ∉ final.keys := by
      intro p inLater
      have absent := unknown p inLater
      rwa [mem_keys_updateBackrefHash, not_or] at absent
    rw [allNormals, List.flatMap_cons]
    constructor
    · apply numbered.normals_nodup.append nodup
      intro p inFirst inLater
      exact (later p inLater).2 (numbered.mem_normals.mp inFirst).1
    intro p inAll
    rcases List.mem_append.mp inAll with inFirst | inLater
    · have new := (numbered.mem_normals.mp inFirst).2
      rwa [← Bool.not_eq_true, isBackref_iff] at new
    · exact (later p inLater).1

theorem Packs.closed
    (closed : ∀ p, p ∈ PmcHash.keys hash → ∀ q, q ∈ w.refs p → q ∈ PmcHash.keys hash) :
    (∀ c, c ∈ constants → c ∈ PmcHash.keys hash ∨ c ∈ allNormals finals) ∧
      ∀ p, p ∈ PmcHash.keys hash ∨ p ∈ allNormals finals →
        ∀ q, q ∈ w.refs p → q ∈ PmcHash.keys hash ∨ q ∈ allNormals finals := by
  induction packs with
  | nil i hash =>
    refine ⟨by simp, ?_⟩
    rintro p (known | impossible) q refers
    · exact .inl (closed p known q refers)
    · cases impossible
  | @cons i c constants hash final finals frozen _ ih =>
    have freezes := freezes_of_frozen frozen
    have known : ∀ p, p ∈ PmcHash.keys (updateBackrefHash hash final.seen i) ↔
        p ∈ PmcHash.keys hash ∨ p ∈ final.normals := by
      intro p
      rw [mem_keys_updateBackrefHash]
      exact mem_keys_iff_of_frozen frozen
    have closedNext : ∀ p, p ∈ PmcHash.keys (updateBackrefHash hash final.seen i) →
        ∀ q, q ∈ w.refs p → q ∈ PmcHash.keys (updateBackrefHash hash final.seen i) := by
      intro p inNext q refers
      rw [mem_keys_updateBackrefHash]
      rcases (known p).mp inNext with old | new
      · exact .inl (closed p old q refers)
      rw [freezes.normals_eq] at new
      rcases freezes.drains.closed p new with before | closedHere
      · rw [freezes.frozen] at before
        cases before
      · exact .inr (closedHere q refers)
    have regroup : ∀ p, p ∈ PmcHash.keys hash ∨ p ∈ allNormals (final :: finals) ↔
        p ∈ PmcHash.keys (updateBackrefHash hash final.seen i) ∨ p ∈ allNormals finals := by
      intro p
      rw [known, allNormals, List.flatMap_cons, List.mem_append, or_assoc]
      rfl
    rcases ih closedNext with ⟨haveConstants, closedLater⟩
    constructor
    · intro d isConstant
      rw [regroup]
      rcases List.mem_cons.mp isConstant with rfl | later
      · left
        rw [mem_keys_updateBackrefHash]
        exact .inr (freezes.mem_keys_iff.mpr ⟨d, rfl, .refl⟩)
      · exact haveConstants d later
    · intro p isKnown q refers
      rw [regroup] at isKnown ⊢
      exact closedLater p isKnown q refers

theorem Packs.reached (created : p ∈ allNormals finals) :
    ∃ c, c ∈ constants ∧ w.Reached (some c) p := by
  induction packs with
  | nil i hash => cases created
  | @cons i c constants hash final finals frozen _ ih =>
    have freezes := freezes_of_frozen frozen
    rw [allNormals, List.flatMap_cons] at created
    rcases List.mem_append.mp created with here | later
    · rcases freezes.mem_keys_iff.mp (freezes.drains.numbered.mem_normals.mp here).1 with
        ⟨first, isRoot, path⟩
      cases isRoot
      refine ⟨c, List.mem_cons_self, c, rfl, ?_⟩
      have refers : Leads w (some (freezeTable str hash)) ≤ fun q r => r ∈ w.refs q :=
        fun _ _ leads => leads.2
      exact ReflTransGen.mono refers _ _ path
    · rcases ih later with ⟨d, isConstant, path⟩
      exact ⟨d, List.mem_cons_of_mem _ isConstant, path⟩

end

/-- Just those PMCs are created that are reached from the constants. -/
theorem Packs.mem_allNormals_iff (packs : Packs header w str i constants [] finals) :
    p ∈ allNormals finals ↔ ∃ c, c ∈ constants ∧ w.Reached (some c) p := by
  refine ⟨packs.reached, ?_⟩
  have none : ∀ p : P, p ∉ PmcHash.keys ([] : PmcHash P Nat) := fun p => List.not_mem_nil
  rcases packs.closed fun p known => (none p known).elim with ⟨haveConstants, closed⟩
  rintro ⟨c, isConstant, first, isRoot, path⟩
  cases isRoot
  induction path with
  | refl => exact (haveConstants c isConstant).resolve_left (none c)
  | tail _ refers ih =>
    exact (closed _ (.inr ih) _ refers).resolve_left (none _)

end RakudoStar.Freeze
