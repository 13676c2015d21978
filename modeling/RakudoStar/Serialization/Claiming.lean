import Mathlib.Data.List.Nodup
import RakudoStar.Serialization.Discovery

/-!
# What the writing functions meet

The nodes that an argument leads to are settled afterwards, and nothing else came onto the work
lists.
-/

namespace RakudoStar.Serialization

open Foundation List RakudoStar.Except Function

namespace Writer

variable {world : World} {roots : Roots} {w after : Writer} {bytes : List UInt8}

theorem still (world : World) (roots : Roots) (w : Writer) : Discovers world roots w w [] :=
  Discovers.of_unclaimed (Grown.refl w) (Unclaimed.refl w)

theorem put_unclaimed (run : w.put bytes = .ok after) : Unclaimed w after := by
  obtain ⟨limit, -, finish⟩ := of_bind run
  cases finish
  exact ⟨fun node => by cases node <;> rfl, rfl, rfl, rfl, rfl, rfl⟩

theorem put_grown (run : w.put bytes = .ok after) : Grown w after := by
  obtain ⟨limit, -, finish⟩ := of_bind run
  cases finish
  exact { Grown.refl w with buffers := fun segment => put_buffers w bytes limit segment }

theorem put_discovers (run : w.put bytes = .ok after) : Discovers world roots w after [] :=
  Discovers.of_unclaimed (put_grown run) (put_unclaimed run)

theorem addStringToHeap_unclaimed (w : Writer) (value : Option String) :
    Unclaimed w (w.addStringToHeap value).1 := by
  cases value with
  | none => exact Unclaimed.refl w
  | some s =>
    rw [addStringToHeap]
    split
    · exact Unclaimed.refl w
    · exact ⟨fun node => by cases node <;> rfl, rfl, rfl, rfl, rfl, rfl⟩

theorem writeStr_discovers {value : Option String} (run : w.writeStr value = .ok after) :
    Discovers world roots w after [] := by
  have heap : Discovers world roots w (w.addStringToHeap value).1 [] :=
    Discovers.of_unclaimed (addStringToHeap_quiet world w value).grown.toGrown
      (addStringToHeap_unclaimed w value)
  have put : (w.addStringToHeap value).1.putInt32 (w.addStringToHeap value).2 = .ok after := run
  exact heap.trans (put_discovers put)

variable {scId idx : Int} {ctx : Option Ctx} {code : Code} {sc : Sc} {st : STable} {count : Nat}
  {obj : Obj}

theorem getScId_unclaimed (run : w.getScId world sc = .ok (after, scId)) : Unclaimed w after := by
  rw [getScId] at run
  split at run
  · cases run
    exact Unclaimed.refl w
  split at run
  · cases run
    exact Unclaimed.refl w
  obtain ⟨alloc, -, finish⟩ := of_bind run
  let reserved : Writer := { w with dependenciesAlloc := alloc }
  obtain ⟨heap, seen, row, frame, -⟩ := pushDependency_frame world reserved sc
  have isAfter : after = reserved.pushDependency world sc := by
    cases finish
    rfl
  rw [isAfter, frame]
  exact ⟨fun node => by cases node <;> rfl, rfl, rfl, rfl, rfl, rfl⟩

theorem getScId_discovers (run : w.getScId world sc = .ok (after, scId)) :
    Discovers world roots w after [] :=
  Discovers.of_unclaimed (getScId_quiet run).grown.toGrown (getScId_unclaimed run)

section

variable (current : sc = w.sc)

include current

theorem mem_stablesList (known : st ∈ w.rootStables world sc) : st ∈ w.stablesList := by
  rw [rootStables, if_pos current] at known
  exact known

theorem mem_objectsList (known : obj ∈ w.rootObjects world sc) : obj ∈ w.objectsList := by
  rw [rootObjects, if_pos current] at known
  exact known

theorem mem_codesList (known : code ∈ w.rootCodes world sc) : code ∈ w.codesList := by
  rw [rootCodes, if_pos current] at known
  exact known

end

theorem claimStable_rows (w : Writer) (st : STable) : (w.claimStable st).1.codesList = w.codesList ∧
      (w.claimStable st).1.closuresTable = w.closuresTable := by
  rw [claimStable]
  split
  · exact ⟨rfl, rfl⟩
  · exact ⟨rfl, rfl⟩

theorem claimObject_rows (w : Writer) (obj : Obj) : (w.claimObject obj).1.codesList = w.codesList ∧
      (w.claimObject obj).1.closuresTable = w.closuresTable := by
  rw [claimObject]
  split
  · exact ⟨rfl, rfl⟩
  · exact ⟨rfl, rfl⟩

theorem claimStable_claims (w : Writer) (st : STable) :
    ((w.claimStable st).1 = w ∨ Claims w (w.claimStable st).1 (.stable st)) ∧
      (w.claimStable st).1.scOf (.stable st) = some (w.claimStable st).2 := by
  rw [claimStable]
  split
  · rename_i sc known
    exact ⟨.inl rfl, known⟩
  rename_i fresh
  constructor
  · right
    constructor
    · exact fresh
    · exact update_self ..
    · intro other different
      cases other with
      | stable other =>
        apply update_of_ne
        exact fun same => different (congrArg Node.stable same)
      | object | code | context => rfl
    · intro other
      cases other with
      | stable | object | code | context => simp [Listed]
    · exact fun new once => once.append (nodup_singleton _) (disjoint_singleton.mpr (new st rfl))
    · exact fun _ once => once
    · exact fun _ once => once
  · exact update_self ..

theorem claimObject_claims (w : Writer) (obj : Obj) :
    ((w.claimObject obj).1 = w ∨ Claims w (w.claimObject obj).1 (.object obj)) ∧
      (w.claimObject obj).1.scOf (.object obj) = some (w.claimObject obj).2 := by
  rw [claimObject]
  split
  · rename_i sc known
    exact ⟨.inl rfl, known⟩
  rename_i fresh
  constructor
  · right
    constructor
    · exact fresh
    · exact update_self ..
    · intro other different
      cases other with
      | object other =>
        apply update_of_ne
        exact fun same => different (congrArg Node.object same)
      | stable | code | context => rfl
    · intro other
      cases other with
      | object | stable | code | context => simp [Listed]
    · exact fun _ once => once
    · exact fun new once => once.append (nodup_singleton _) (disjoint_singleton.mpr (new obj rfl))
    · exact fun _ once => once
  · exact update_self ..

/-- A node that is claimed, and found on its list, has been met. -/
theorem claimed_discovers {claimed : Writer} {node : Node} (grown : Grown w claimed)
    (claims : claimed = w ∨ Claims w claimed node) (noClosure : ∀ code, node ≠ .code code)
    (rows : claimed.codesList = w.codesList ∧ claimed.closuresTable = w.closuresTable)
    (isIn : claimed.scOf node = some sc) (run : claimed.getScId world sc = .ok (after, scId))
    (found : sc = after.sc → after.Listed node) : Discovers world roots w after [node] := by
  have unclaimed := getScId_unclaimed run
  have settled : claimed.Settled node := by
    refine ⟨sc, isIn, ?_⟩
    intro current
    apply (unclaimed.listed node).mp
    exact found (current.trans (getScId_quiet run).grown.sc.symm)
  rcases claims with same | claims
  · rw [same] at settled run
    exact ((still world roots w).and_settled settled).trans (getScId_discovers run)
  have met : Discovers world roots w claimed [node] :=
    claims.discovers grown (fun code closure => absurd closure (noClosure code))
      (ClosureRows.of_same grown rows.1 rows.2)
  exact met.trans (getScId_discovers run)

theorem getStableRefInfo_discovers (run : w.getStableRefInfo world st = .ok (after, scId, idx)) :
    Discovers world roots w after [.stable st] := by
  obtain ⟨⟨middle, id⟩, scRun, rest⟩ := of_bind run
  obtain ⟨i, findRun, finish⟩ := of_bind rest
  cases finish
  have claimed := claimStable_claims w st
  apply claimed_discovers (claimStable_quiet world w st).grown.toGrown claimed.1
    nofun (claimStable_rows w st) claimed.2 scRun
  intro current
  exact mem_stablesList current (mem_of_getElem? (findStableIdx_ok findRun))

theorem getObjectRefInfo_discovers (run : w.getObjectRefInfo world obj = .ok (after, scId, idx)) :
    Discovers world roots w after [.object obj] := by
  obtain ⟨⟨middle, id⟩, scRun, rest⟩ := of_bind run
  obtain ⟨i, findRun, finish⟩ := of_bind rest
  cases finish
  have claimed := claimObject_claims w obj
  apply claimed_discovers (claimObject_quiet world w obj).grown.toGrown claimed.1
    nofun (claimObject_rows w obj) claimed.2 scRun
  intro current
  exact mem_objectsList current (mem_of_getElem? (findObjectIdx_ok findRun))

theorem writeObjRef_discovers (run : w.writeObjRef world obj = .ok after) :
    Discovers world roots w after [.object obj] := by
  obtain ⟨⟨middle, scId, idx⟩, infoRun, putRun⟩ := of_bind run
  exact (getObjectRefInfo_discovers infoRun).trans (put_discovers putRun)

theorem writeStableRef_discovers (run : w.writeStableRef world st = .ok after) :
    Discovers world roots w after [.stable st] := by
  obtain ⟨⟨middle, scId, idx⟩, infoRun, putRun⟩ := of_bind run
  exact (getStableRefInfo_discovers infoRun).trans (put_discovers putRun)

section

variable (outer : OuterIdx world w ctx after idx)

include outer

theorem OuterIdx.discovers : Discovers world roots w after (world.outerMentions ctx) := by
  have grown := outer.quiet.grown.toGrown
  cases outer with
  | nothing => exact still world roots w
  | unlocated fresh static =>
    rw [World.outerMentions, static]
    exact still world roots w
  | @added ctx staticCode fresh static =>
    rw [World.outerMentions, static]
    apply Claims.discovers grown
    · constructor
      · exact fresh
      · exact update_self ..
      · intro other different
        cases other with
        | context other =>
          apply update_of_ne
          exact fun same => different (congrArg Node.context same)
        | stable | object | code => rfl
      · intro other
        cases other with
        | context | stable | object | code => simp [Listed]
      · exact fun _ once => once
      · exact fun _ once => once
      · exact fun new once => once.append (nodup_singleton _) (disjoint_singleton.mpr (new ctx rfl))
    · intro code closure
      cases closure
    · exact ClosureRows.of_same grown rfl rfl
  | @known ctx sc i located found =>
    have listed : w.Settled (.context ctx) := ⟨sc, located, fun _ => mem_of_getElem? found⟩
    rw [World.outerMentions]
    split
    · exact (still world roots w).and_settled listed
    · exact still world roots w

theorem OuterIdx.codes : after.scOfCode = w.scOfCode := by
  cases outer <;> rfl

theorem OuterIdx.describes : DescribesOuter world after ctx idx := by
  cases outer with
  | nothing => exact .nothing none rfl
  | unlocated _ static => exact .nothing _ (by rw [World.outerMentions, static])
  | @added ctx => exact .listed ctx _ getElem?_concat_length
  | @known ctx sc i _ found => exact .listed ctx i found

end

theorem OuterIdx.of_option
    (run : w.outerContextIdx world ctx = .ok (after, idx)) : OuterIdx world w ctx after idx := by
  cases ctx with
  | none =>
    cases run
    exact .nothing
  | some ctx => exact .of_some run

theorem getScId_codes (run : w.getScId world sc = .ok (after, scId)) :
    after.scOfCode = w.scOfCode := by
  funext code
  exact (getScId_unclaimed run).scOf (.code code)

/-- The place of a code reference that was looked up. -/
theorem denotesCode_of_found {idx : Nat}
    (bounded : Bounded world after) (scRun : w.getScId world sc = .ok (after, scId))
    (findRun : after.findCodeIdx world sc code = .ok idx) :
    DenotesCode world after scId (int4 idx) code := by
  have known := findCodeIdx_ok findRun
  have small := (lt_length_of_getElem? known).trans_le (bounded.codes sc)
  exact ⟨sc, getScId_denotes bounded.dependencies scRun, idx, int4_eq small, known⟩

section

variable {closure : Code} {info : Option (Int × Int)}
  (run : w.getCodeObjectInfo world closure = .ok (after, info))
include run

theorem getCodeObjectInfo_discovers :
    Discovers world roots w after ((world.code closure).codeObject.toList.map Node.object) := by
  rcases getCodeObjectInfo_cases run with
    ⟨noObject, rfl, -⟩ | ⟨obj, scId, idx, isObject, infoRun, -⟩
  · rw [noObject]
    exact still world roots after
  · rw [isObject]
    exact getObjectRefInfo_discovers infoRun

theorem getCodeObjectInfo_codes : after.scOfCode = w.scOfCode := by
  rcases getCodeObjectInfo_cases run with ⟨-, rfl, -⟩ | ⟨obj, scId, idx, -, infoRun, -⟩
  · rfl
  obtain ⟨⟨named, id⟩, scRun, rest⟩ := of_bind infoRun
  obtain ⟨i, findRun, finish⟩ := of_bind rest
  cases finish
  have claimed : (w.claimObject obj).1.scOfCode = w.scOfCode := by
    rw [claimObject]
    split <;> rfl
  exact (getScId_codes scRun).trans claimed

theorem getCodeObjectInfo_describes (bounded : Bounded world after) :
    DescribesCodeObject world after (world.code closure).codeObject info := by
  rcases getCodeObjectInfo_cases run with
    ⟨noObject, -, rfl⟩ | ⟨obj, scId, idx, isObject, infoRun, rfl⟩
  · rw [noObject]
    exact .nothing
  · rw [isObject]
    exact .denoted obj scId idx ((getObjectRefInfo_spec infoRun).2 bounded)

end

/-- A closure that is serialized leads on to its outer context and its code object. -/
theorem serializeClosure_discovers {closure : Code} (fresh : w.scOfCode closure = none)
    (run : w.serializeClosure world closure = .ok after) :
    Discovers world roots w after [.code closure] := by
  have grown := (serializeClosure_quiet run).grown.toGrown
  obtain ⟨staticCode, staticRun, rest⟩ := of_bind run
  cases staticCode with
  | none => cases rest
  | some staticCode =>
    obtain ⟨alloc, -, rest⟩ := of_bind rest
    obtain ⟨⟨outer, contextIdx⟩, outerRun, rest⟩ := of_bind rest
    obtain ⟨staticSc, -, rest⟩ := of_bind rest
    obtain ⟨⟨named, staticScId⟩, scRun, rest⟩ := of_bind rest
    obtain ⟨staticIdx, findRun, rest⟩ := of_bind rest
    obtain ⟨⟨claimed, codeObject⟩, objectRun, finish⟩ := of_bind rest
    have reserved : Discovers world roots w { w with closuresAlloc := alloc } [] :=
      Discovers.of_unclaimed { Grown.refl w with }
        ⟨fun node => by cases node <;> rfl, rfl, rfl, rfl, rfl, rfl⟩
    have referred : Discovers world roots w claimed (world.references (.code closure)) := by
      have outerMet := reserved.trans (OuterIdx.of_closure outerRun).discovers
      have namedMet := outerMet.trans (getScId_discovers scRun)
      rw [append_nil, apply_ite world.outerMentions] at namedMet
      exact namedMet.trans (getCodeObjectInfo_discovers objectRun)
    have outerCodes := (OuterIdx.of_closure outerRun).codes
    have codes : claimed.scOfCode = w.scOfCode :=
      ((getCodeObjectInfo_codes objectRun).trans (getScId_codes scRun)).trans outerCodes
    have claims : Claims claimed after (.code closure) := by
      cases finish
      constructor
      · exact (congrFun codes closure).trans fresh
      · exact update_self ..
      · intro other different
        cases other with
        | code other =>
          apply update_of_ne
          exact fun same => different (congrArg Node.code same)
        | stable | object | context => rfl
      · intro other
        cases other with
        | code | stable | object | context => simp [Listed]
      all_goals exact fun _ once => once
    have last : Grown claimed after := by
      cases finish
      exact { Grown.refl claimed with
        codes := prefix_append ..
        closureRows := prefix_append .. }
    have described : ClosureRows world roots claimed → ClosureRows world roots after := by
      have namedGrown := (getCodeObjectInfo_quiet objectRun).grown.toGrown.trans last
      have outerGrown := (getScId_quiet scRun).grown.toGrown.trans namedGrown
      apply @ClosureRows.push world roots claimed after last
        ⟨staticScId, int4 staticIdx, contextIdx, codeObject⟩ closure
      · cases finish
        rfl
      · cases finish
        rfl
      intro bounded
      constructor
      · have denotes := denotesCode_of_found (bounded.of_grown namedGrown) scRun findRun
        exact ⟨staticCode, staticRun, denotes.of_grown namedGrown⟩
      · exact (OuterIdx.of_closure outerRun).describes.of_grown outerGrown
      · exact (getCodeObjectInfo_describes objectRun (bounded.of_grown last)).of_grown last
    have met : Discovers world roots claimed after [.code closure] := by
      apply claims.discovers last _ described
      intro code same other member
      exact (referred.settled other member).mono last claims.keeps
    constructor
    · exact grown
    · exact fun node sc isIn => met.keeps node sc (referred.keeps node sc isIn)
    · exact fun ledger => met.ledger (referred.ledger ledger)
    · exact met.settled
    · intro ledger inside closed isInside before
      have free : roots.scOfCode closure = none := by
        cases known : roots.scOfCode closure with
        | none => rfl
        | some sc =>
          have kept := ledger.kept (.code closure) sc known
          rw [show w.scOf (.code closure) = none from fresh] at kept
          cases kept
      apply met.within (referred.ledger ledger) inside closed isInside
      exact referred.within ledger inside closed
        (closed closure free (isInside _ (mem_singleton_self _))) before

theorem writeCodeRef_discovers (run : w.writeCodeRef world code = .ok after) :
    Discovers world roots w after [.code code] := by
  obtain ⟨codeSc, isIn, run⟩ := of_bind run
  obtain ⟨⟨middle, scId⟩, scRun, run⟩ := of_bind run
  obtain ⟨idx, findRun, putRun⟩ := of_bind run
  have known : w.scOfCode code = some codeSc := by
    rw [staticCodeSc] at isIn
    split at isIn
    · rename_i sc found
      cases isIn
      exact found
    · cases isIn
  have named : Discovers world roots w middle [] := getScId_discovers scRun
  have settled : middle.Settled (.code code) := by
    refine ⟨codeSc, named.keeps (.code code) codeSc known, ?_⟩
    intro current
    exact mem_codesList current (mem_of_getElem? (findCodeIdx_ok findRun))
  exact (named.and_settled settled).trans (put_discovers putRun)

theorem codeDiscriminator_discovers {discrim : Int}
    (run : w.codeDiscriminator world code = .ok (after, discrim)) :
    ∃ nodes, (∀ node ∈ nodes, node = Node.code code) ∧ Discovers world roots w after nodes := by
  rw [codeDiscriminator] at run
  split at run
  · cases run
    exact ⟨[], fun _ impossible => absurd impossible not_mem_nil, still world roots w⟩
  rename_i fresh
  obtain ⟨middle, closureRun, finish⟩ := of_bind run
  cases finish
  exact ⟨[.code code], fun _ member => mem_singleton.mp member,
    serializeClosure_discovers fresh closureRun⟩

theorem writeInts_discovers {values : List (BitVec 64)}
    (run : w.writeInts count values = .ok after) : Discovers world roots w after [] := by
  induction values generalizing w count with
  | nil =>
    cases count with
    | zero | succ count =>
      cases run
      exact still world roots _
  | cons value values ih =>
    cases count with
    | zero =>
      cases run
      exact still world roots _
    | succ count =>
      obtain ⟨middle, oneRun, othersRun⟩ := of_bind run
      exact (put_discovers oneRun).trans (ih othersRun)

theorem writeStrs_discovers {values : List (Option String)}
    (run : w.writeStrs count values = .ok after) : Discovers world roots w after [] := by
  induction values generalizing w count with
  | nil =>
    cases count with
    | zero | succ count =>
      cases run
      exact still world roots _
  | cons value values ih =>
    cases count with
    | zero =>
      cases run
      exact still world roots _
    | succ count =>
      obtain ⟨middle, oneRun, othersRun⟩ := of_bind run
      exact (writeStr_discovers oneRun).trans (ih othersRun)

/-- The discriminator of a code reference and the reference meet the code. -/
theorem code_discovers {middle put : Writer} {discrim : Int}
    (discrimRun : w.codeDiscriminator world code = .ok (middle, discrim))
    (putRun : middle.putInt16 discrim = .ok put) (run : put.writeCodeRef world code = .ok after) :
    Discovers world roots w after [.code code] := by
  obtain ⟨nodes, only, claimed⟩ := @codeDiscriminator_discovers world roots _ _ _ _ discrimRun
  have met : Discovers world roots w after (nodes ++ [] ++ [.code code]) :=
    (claimed.trans (put_discovers putRun)).trans (writeCodeRef_discovers run)
  constructor
  · exact met.grown
  · exact met.keeps
  · exact met.ledger
  · exact fun node member => met.settled node (mem_append_right _ member)
  · intro ledger inside closed isInside
    apply met.within ledger inside closed
    intro node member
    rw [append_nil] at member
    rcases mem_append.mp member with early | late
    · rw [only node early]
      exact isInside _ (mem_singleton_self _)
    · exact isInside node late

end Writer

open Writer in
mutual

/-- What a value leads to is met when the value is written. -/
theorem writeRef_discovers (world : World) (roots : Roots) :
    ∀ {w after : Writer} (value : VMValue), value.Fits → w.writeRef world value = .ok after →
      Discovers world roots w after value.mentions
  | _, _, .null, _, run => put_discovers run
  | _, _, .vmNull, _, run => put_discovers run
  | _, _, .undef, _, run => put_discovers run
  | _, _, .dropped _, _, run => put_discovers run
  | _, _, .object obj, _, run => by
    obtain ⟨middle, put, run⟩ := of_bind run
    exact (put_discovers put).trans (writeObjRef_discovers run)
  | _, _, .int value, _, run | _, _, .num bits, _, run => by
    obtain ⟨middle, put, run⟩ := of_bind run
    exact (put_discovers put).trans (put_discovers run)
  | _, _, .str value, _, run => by
    obtain ⟨middle, put, run⟩ := of_bind run
    exact (put_discovers put).trans (writeStr_discovers run)
  | _, _, .array elements, fits, run => by
    rw [VMValue.Fits] at fits
    rw [Writer.writeRef, elementCount_toNat fits.1] at run
    obtain ⟨middle, put, run⟩ := of_bind run
    obtain ⟨counted, count, run⟩ := of_bind run
    have loop := writeElements_discovers world roots elements fits.2 run
    rw [VMValue.mentions]
    exact ((put_discovers put).trans (put_discovers count)).trans loop
  | _, _, .strArray elements, _, run => by
    obtain ⟨middle, put, run⟩ := of_bind run
    obtain ⟨counted, count, run⟩ := of_bind run
    exact ((put_discovers put).trans (put_discovers count)).trans (writeStrs_discovers run)
  | _, _, .intArray elements, _, run => by
    obtain ⟨middle, put, run⟩ := of_bind run
    obtain ⟨counted, count, run⟩ := of_bind run
    exact ((put_discovers put).trans (put_discovers count)).trans (writeInts_discovers run)
  | _, _, .hash entries, fits, run => by
    rw [VMValue.Fits] at fits
    obtain ⟨middle, put, run⟩ := of_bind run
    obtain ⟨counted, count, run⟩ := of_bind run
    have loop := writeEntries_discovers world roots entries fits.2.2 run
    rw [VMValue.mentions]
    exact ((put_discovers put).trans (put_discovers count)).trans loop
  | _, _, .code code, _, run => by
    obtain ⟨⟨middle, discrim⟩, discrimRun, run⟩ := of_bind run
    obtain ⟨counted, put, run⟩ := of_bind run
    exact code_discovers discrimRun put run
  | _, _, .parrotObject _, _, run => by cases run
  | _, _, .unimplemented _, _, run => by cases run

theorem writeElements_discovers (world : World) (roots : Roots) :
    ∀ {w after : Writer} (values : List VMValue), VMValue.AllFit values →
      w.writeElements world values.length values = .ok after →
      Discovers world roots w after (VMValue.mentionsAll values)
  | _, _, [], _, run => by
    cases run
    exact still world roots _
  | _, _, value :: values, fits, run => by
    rw [VMValue.AllFit] at fits
    obtain ⟨middle, oneRun, othersRun⟩ := of_bind run
    exact (writeRef_discovers world roots value fits.1 oneRun).trans
      (writeElements_discovers world roots values fits.2 othersRun)

theorem writeEntries_discovers (world : World) (roots : Roots) :
    ∀ {w after : Writer} (entries : List (String × VMValue)), VMValue.EntriesFit entries →
      w.writeEntries world entries = .ok after →
      Discovers world roots w after (VMValue.mentionsEntries entries)
  | _, _, [], _, run => by
    cases run
    exact still world roots _
  | _, _, (key, value) :: entries, fits, run => by
    rw [VMValue.EntriesFit] at fits
    obtain ⟨keyed, keyRun, run⟩ := of_bind run
    obtain ⟨middle, oneRun, othersRun⟩ := of_bind run
    exact ((writeStr_discovers keyRun).trans
      (writeRef_discovers world roots value fits.1 oneRun)).trans
        (writeEntries_discovers world roots entries fits.2 othersRun)

end

section

theorem writeItem_discovers {w after : Writer} {item : Item} (fits : item.Fits)
    (run : w.writeItem world item = .ok after) : Discovers world roots w after item.mentions := by
  cases item with
  | int value | num bits => exact Writer.put_discovers run
  | str value => exact Writer.writeStr_discovers run
  | ref value => exact writeRef_discovers world roots value fits run
  | objRef obj => exact Writer.writeObjRef_discovers run
  | stableRef st => exact Writer.writeStableRef_discovers run

theorem writeItems_discovers {items : List Item} {w after : Writer}
    (fit : ∀ item ∈ items, item.Fits) (run : w.writeItems world items = .ok after) :
    Discovers world roots w after (mentionsOf items) := by
  induction items generalizing w with
  | nil =>
    cases run
    exact Writer.still world roots _
  | cons item items ih =>
    obtain ⟨middle, itemRun, itemsRun⟩ := of_bind run
    have first := @writeItem_discovers world roots _ _ _ (fit item (mem_cons_self ..)) itemRun
    have others := ih (forall_mem_cons.mp fit).2 itemsRun
    exact first.trans others

end

end RakudoStar.Serialization
