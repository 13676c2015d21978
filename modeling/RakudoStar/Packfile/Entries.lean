import RakudoStar.Packfile.Segments

/-!
# What is unpacked of a directory

The entries are checked against the segments they point at; the segments follow.
-/

namespace RakudoStar.Packfile

open Freeze List RakudoStar.Except

variable {P : Type} {w : World P} {loader : Loader} {placed : List (Placed P)}
  {directory : List Entry} {segments others : List (Segment P)} {seg : Segment P} {suffix : Nat}
  {name : Name}

/-- An entry of a segment. -/
structure Listed (entry : Entry) (p : Placed P) : Prop where
  type : entry.type = p.segment.type
  name : text entry.name = text p.segment.name
  fileOffset : entry.fileOffset = BitVec.ofNat 64 p.fileOffset
  opCount : entry.opCount = BitVec.ofNat 64 p.opCount

theorem ofNum_num (type : SegType) : SegType.ofNum type.num = some type := by
  cases type <;> decide

theorem segmentBytes_starts (seg : Segment P) (opCount : Nat) (content : List UInt8) :
    ∃ tail, segmentBytes seg opCount content = storeCount opCount ++ tail := by
  simp only [segmentBytes, align16_eq, defaultPack, append_assoc]
  exact ⟨_, rfl⟩

theorem unpackEntry_store {whole : List UInt8} {p : Placed P} {hasCode : Bool}
    (points : ∃ tail, whole.drop (p.fileOffset * wordsize) = storeCount p.opCount ++ tail)
    (near : p.fileOffset < 2 ^ 64) (code : hasCode = true ∨ p.segment.type = .bytec)
    (rest : List UInt8) : ∃ entry, unpackEntry loader whole hasCode (storeSegmentEntry p ++ rest) =
      .ok (entry, true, rest) ∧ Listed entry p := by
  rcases points with ⟨tail, behind⟩
  rcases fetchString_store p.segment.name
    (storeCount p.fileOffset ++ (storeCount p.opCount ++ rest)) with ⟨name, fetched, same⟩
  have offset : (BitVec.ofNat 64 p.fileOffset).toNat = p.fileOffset := by
    rw [BitVec.toNat_ofNat, Nat.mod_eq_of_lt near]
  have pointers : makeCodePointers p.segment.type hasCode = .ok true := by
    rcases code with isTrue | isCode
    · rw [isTrue]
      cases p.segment.type <;> rfl
    · rw [isCode]
      rfl
  refine ⟨{ type := p.segment.type, name, fileOffset := BitVec.ofNat 64 p.fileOffset,
            opCount := BitVec.ofNat 64 p.opCount }, ?_, rfl, same, rfl, rfl⟩
  rw [storeCount] at behind
  rw [storeSegmentEntry, append_assoc, append_assoc, append_assoc, unpackEntry,
    fetchOpcode_store, ok_bind]
  simp only [ofNum_num, fetched, ok_bind]
  simp only [storeCount, fetchOpcode_store, ok_bind, offset, behind, ne_eq,
    not_true_eq_false, if_false, pointers]

theorem unpackDirectoryEntries_store {whole : List UInt8} {hasCode : Bool}
    (points : ∀ p ∈ placed, p.fileOffset < 2 ^ 64 ∧
      ∃ tail, whole.drop (p.fileOffset * wordsize) = storeCount p.opCount ++ tail)
    (code : hasCode = true ∨ ∀ p, placed.head? = some p → p.segment.type = .bytec)
    (rest : List UInt8) : ∃ entries, unpackDirectoryEntries loader whole placed.length hasCode
        (placed.flatMap storeSegmentEntry ++ rest) = .ok (entries, rest) ∧
      List.Forall₂ Listed entries placed := by
  induction placed generalizing hasCode with
  | nil => exact ⟨[], rfl, .nil⟩
  | cons p placed ih =>
    rw [forall_mem_cons] at points
    have first : hasCode = true ∨ p.segment.type = .bytec := code.imp_right fun code => code p rfl
    rcases @unpackEntry_store _ loader whole p hasCode points.1.2 points.1.1 first
      (placed.flatMap storeSegmentEntry ++ rest) with ⟨entry, unpacked, listed⟩
    rcases ih points.2 (.inl rfl) with ⟨entries, others, areListed⟩
    refine ⟨entry :: entries, ?_, .cons listed areListed⟩
    rw [length_cons, flatMap_cons, append_assoc, unpackDirectoryEntries, unpacked, ok_bind]
    simp only [others, ok_bind]

/-- A name, without some last characters, is that of code and of nothing else. -/
def FindsCode (loader : Loader) (segments : List (Segment P)) (name : Name) (suffix : Nat) : Prop :=
  (∃ seg ∈ segments, loader.sameName (text seg.name) (loader.codeName name suffix) = true) ∧
    ∀ seg ∈ segments, loader.sameName (text seg.name) (loader.codeName name suffix) = true →
      seg.type = .bytec

/-- Debug and annotations segments are named after the code they belong to. -/
def Segment.Belongs (loader : Loader) (segments : List (Segment P)) (seg : Segment P) : Prop :=
  match seg.content with
  | .debug _ => FindsCode loader segments (text seg.name) 3
  | .annotations _ => FindsCode loader segments (text seg.name) 4
  | _ => True

theorem FindsCode.perm
    (finds : FindsCode loader segments name suffix) (same : others.Perm segments) :
    FindsCode loader others name suffix := by
  rcases finds with ⟨⟨seg, member, isNamed⟩, only⟩
  exact ⟨⟨seg, same.mem_iff.mpr member, isNamed⟩,
    fun seg member => only seg (same.mem_iff.mp member)⟩

theorem Segment.Belongs.perm (belongs : seg.Belongs loader segments) (same : others.Perm segments) :
    seg.Belongs loader others := by
  revert belongs
  unfold Segment.Belongs
  split
  · exact fun finds => finds.perm same
  · exact fun finds => finds.perm same
  · exact fun trivially => trivially

theorem attach_of_finds (listed : List.Forall₂ Listed directory placed)
    (finds : FindsCode loader (placed.map Placed.segment) name suffix) (kind : String)
    (shown : Name → String) : attach loader directory name suffix kind shown = .ok () := by
  rcases finds with ⟨⟨seg, member, isNamed⟩, only⟩
  rcases mem_map.mp member with ⟨p, isPlaced, rfl⟩
  rcases forall₂_iff_get.mp listed with ⟨sameLength, areListed⟩
  have present : (findSegment loader directory (loader.codeName name suffix)).isSome := by
    rw [findSegment, find?_isSome]
    rcases getElem_of_mem isPlaced with ⟨k, inside, rfl⟩
    have isListed := areListed k (sameLength ▸ inside) inside
    refine ⟨directory.get ⟨k, sameLength ▸ inside⟩, get_mem _ _, ?_⟩
    rw [isListed.name]
    exact isNamed
  rcases Option.isSome_iff_exists.mp present with ⟨entry, found⟩
  have isCode : entry.type = .bytec := by
    have fits := find?_some found
    rcases getElem_of_mem (mem_of_find?_eq_some found) with ⟨k, inside, rfl⟩
    have isListed := areListed k inside (sameLength ▸ inside)
    rw [get_eq_getElem] at isListed
    rw [isListed.type]
    apply only _ (mem_map_of_mem (get_mem _ _))
    rw [← isListed.name]
    exact fits
  rw [attach]
  simp only [found, isCode, if_true]

theorem attached_of_belongs (listed : List.Forall₂ Listed directory placed)
    (belongs : seg.Belongs loader (placed.map Placed.segment)) :
    Attached loader directory (text seg.name) seg.content := by
  unfold Segment.Belongs at belongs
  unfold Attached
  split
  case h_1 isDebug =>
    rw [isDebug] at belongs
    exact attach_of_finds listed belongs _ _
  case h_2 isAnnotations =>
    rw [isAnnotations] at belongs
    exact attach_of_finds listed belongs _ _
  · trivial

variable [DecidableEq P]

theorem unpackSegments_pack (lawful : w.Lawful) (loads : loader.For w)
    {entries : List Entry} {start stop : Nat}
    {bytes before rest whole : List UInt8} (lies : Lies loader.header w start placed bytes stop)
    (listed : List.Forall₂ Listed entries placed)
    (valid : ∀ p ∈ placed, p.segment.content.Lawful loader)
    (attached : ∀ p ∈ placed, Attached loader directory (text p.segment.name) p.segment.content)
    (aligned : start % 2 = 0) (length : before.length = start * wordsize)
    (split : whole = before ++ (bytes ++ rest)) (short : whole.length < 2 ^ 31)
    (fits : stop * wordsize < 2 ^ 31) (heap : List Created) :
    ∃ found last, unpackSegments loader directory whole entries heap (bytes ++ rest) =
      .ok (found, last, rest) ∧ heap <+: last ∧
      List.Forall₂ (fun p l => SameSegment w last p.segment l) placed found := by
  induction lies generalizing before entries heap with
  | nil start =>
    cases listed
    exact ⟨[], heap, rfl, prefix_refl _, .nil⟩
  | @cons start stop p placed content bytes offset size even packed later ih =>
    rcases listed with _ | ⟨isListed, listed⟩
    rename_i entry entries
    rw [forall_mem_cons] at valid attached
    have ends := later.le
    have own : p.opCount * wordsize < 2 ^ 31 := by
      unfold wordsize at *
      omega
    have splitHere : whole =
        before ++ (segmentBytes p.segment p.opCount content ++ (bytes ++ rest)) := by
      rw [split, append_assoc]
    have multiple : before.length % 16 = 0 := by
      unfold wordsize at length
      omega
    rcases segmentUnpack_pack lawful loads isListed.type isListed.name valid.1 attached.1 size
      packed multiple splitHere short own heap with ⟨found, middle, unpacked, more, same⟩
    have next : (before ++ segmentBytes p.segment p.opCount content).length =
        (start + p.opCount) * wordsize := by
      rw [length_append, length, length_segmentBytes size packed own, add_mul]
    rcases ih listed valid.2 attached.2
      (by rw [Nat.add_mod, aligned, even]) next
      (by rw [split, append_assoc, append_assoc]) fits middle with
      ⟨others, last, unpackedOthers, moreOthers, areSame⟩
    rcases segmentBytes_starts p.segment p.opCount content with ⟨tail, starts⟩
    refine ⟨found :: others, last, ?_, more.trans moreOthers, .cons ?_ areSame⟩
    · have read : fetchOpcode (segmentBytes p.segment p.opCount content ++ (bytes ++ rest)) =
          .ok (BitVec.ofNat 64 p.opCount, tail ++ (bytes ++ rest)) := by
        rw [starts, append_assoc, storeCount, fetchOpcode_store]
      rw [append_assoc, unpackSegments, read, ok_bind]
      rw [unpacked, ok_bind]
      dsimp only
      rw [unpackedOthers, ok_bind]
    · exact { same with content := same.content.mono moreOthers }

end RakudoStar.Packfile
