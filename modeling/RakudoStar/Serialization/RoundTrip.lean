import RakudoStar.Serialization.Growth

/-!
# What is written is read back

The bytes added by a writing function are those consumed by the reading function that answers
it, whatever follows, and the value comes back.
-/

namespace RakudoStar.Serialization

open Foundation List RakudoStar.Except Int Function

namespace Reader

variable {r : Reader} {bytes tail : List UInt8}

theorem rest_advance (rest : r.rest = bytes ++ tail) : (r.advance bytes.length).rest = tail := by
  have shifted : (r.advance bytes.length).rest = r.rest.drop bytes.length := by
    rw [Reader.rest, Reader.rest, drop_drop]
    rfl
  rw [shifted, rest, drop_left]

theorem advance_advance (r : Reader) (first second : Nat) :
    (r.advance first).advance second = r.advance (first + second) := by
  rw [advance, advance, advance, Nat.add_assoc]

theorem readBytes_append (nonempty : bytes ≠ []) (rest : r.rest = bytes ++ tail) :
    r.readBytes bytes.length = .ok (bytes, r.advance bytes.length) := by
  have count := congrArg length rest
  rw [Reader.rest, length_drop, length_append] at count
  have positive := length_pos_iff.mpr nonempty
  have inside : ¬ r.offset + bytes.length > r.data.length := by omega
  rw [readBytes, if_neg inside, rest, take_left]

end Reader

/-- Bytes were added that `read` takes back to `value`. -/
structure Emits {α : Type} (world : World) (before after : Writer)
    (read : Nat → Reader → Except ReadFault (α × Reader)) (value : α) : Prop where
  grown : Extends before after
  sound : Sound world before → Sound world after
  encoded : Sound world before → Bounded world after → ∃ bytes, after.data = before.data ++ bytes ∧
    ∀ {r : Reader} {fuel : Nat} {tail : List UInt8}, Follows world after r →
      bytes.length ≤ fuel → r.rest = bytes ++ tail →
        read fuel r = .ok (value, r.advance bytes.length)

namespace Emits

variable {α β : Type} {world : World} {first second third : Writer}
  {read : Nat → Reader → Except ReadFault (α × Reader)} {value : α}

theorem nothing (world : World) (w : Writer) (value : α) :
    Emits world w w (fun _ r => .ok (value, r)) value where
  grown := Extends.refl w
  sound := id
  encoded := fun _ _ => ⟨[], (append_nil _).symm, fun _ _ _ => rfl⟩

/-- One call after the other is answered by one read after the other. -/
theorem bind {next : α → Nat → Reader → Except ReadFault (β × Reader)} {result : β}
    (left : Emits world first second read value)
    (right : Emits world second third (next value) result) : Emits world first third
      (fun fuel r => read fuel r >>= fun answer => next answer.1 fuel answer.2) result where
  grown := left.grown.trans right.grown
  sound := fun sound => right.sound (left.sound sound)
  encoded := by
    intro sound bounded
    obtain ⟨leftBytes, leftData, leftRead⟩ :=
      left.encoded sound (bounded.of_grown right.grown.toGrown)
    obtain ⟨rightBytes, rightData, rightRead⟩ := right.encoded (left.sound sound) bounded
    exists leftBytes ++ rightBytes
    constructor
    · rw [rightData, leftData, append_assoc]
    intro r fuel tail follows enough rest
    rw [length_append] at enough
    rw [append_assoc] at rest
    have readLeft := leftRead (follows.of_grown right.grown.toGrown)
      ((Nat.le_add_right ..).trans enough) rest
    have readRight := rightRead (follows.advance leftBytes.length)
      ((Nat.le_add_left ..).trans enough) (Reader.rest_advance rest)
    rw [readLeft, ok_bind, readRight, Reader.advance_advance, length_append]

/-- What writes no data beforehand does not show. -/
theorem after_quiet (quiet : Quiet world first second)
    (emits : Emits world second third read value) : Emits world first third read value where
  grown := quiet.grown.trans emits.grown
  sound := fun sound => emits.sound (quiet.sound sound)
  encoded := by
    intro sound bounded
    have same : second.data = first.data := by
      rw [Writer.data, Writer.data, quiet.buffers, quiet.grown.current]
    rw [← same]
    exact emits.encoded (quiet.sound sound) bounded

/-- The answer is completed by lookups, which read nothing. -/
theorem resolve {next : α → Reader → Except ReadFault (β × Reader)} {result : β}
    (emits : Emits world first second read value)
    (resolved : Sound world first → Bounded world second → ∀ r, Follows world second r →
      next value r = .ok (result, r)) : Emits world first second
      (fun fuel r => read fuel r >>= fun answer => next answer.1 answer.2) result where
  grown := emits.grown
  sound := emits.sound
  encoded := by
    intro sound bounded
    obtain ⟨bytes, data, readBack⟩ := emits.encoded sound bounded
    exists bytes
    apply And.intro data
    intro r fuel tail follows enough rest
    rw [readBack follows enough rest, ok_bind]
    exact resolved sound bounded _ (follows.advance bytes.length)

theorem map (emits : Emits world first second read value) (f : α → β) : Emits world first second
      (fun fuel r => read fuel r >>= fun answer => .ok (f answer.1, answer.2)) (f value) :=
  @resolve _ _ _ _ _ _ _ (fun answer r => .ok (f answer, r)) _ emits fun _ _ _ _ => rfl

end Emits

variable {α : Type} {i : Nat}

theorem elementAt_of_getElem? {list : List α} {element : α}
    (known : list[i]? = some element) : elementAt list i = .ok element := by
  have nonneg : ¬ (i : Int) < 0 := Int.not_lt.mpr (natCast_nonneg i)
  rw [elementAt, if_neg nonneg, if_neg nonneg, toNat_natCast, known]

theorem not_length_le {list : List α} {element : α}
    (known : list[i]? = some element) : ¬ (i : Int) ≥ list.length := by
  have inside := lt_length_of_getElem? known
  omega

section

variable {world : World} {w : Writer}

theorem readStringFromHeap_ok (follows : Follows world w r)
    {value : Option String} (known : w.stringHeap[i]? = some value) :
    r.readStringFromHeap i = .ok value := by
  have there := getElem?_of_pre follows.heap known
  rw [Reader.readStringFromHeap, if_neg (not_length_le there)]
  exact elementAt_of_getElem? there

theorem locateSc_ok (follows : Follows world w r) {sc : Sc} {scId : Int}
    (denotes : Writer.DenotesSc w sc scId) : r.locateSc scId = .ok sc := by
  cases denotes with
  | current same =>
    rw [Reader.locateSc, if_pos rfl, follows.sc, same]
  | dependency i known =>
    have there := getElem?_of_pre follows.dependencies known
    have notCurrent : ¬ (i : Int) + 1 = 0 := by omega
    rw [Reader.locateSc, if_neg notCurrent, Int.add_sub_cancel, if_neg (not_length_le there)]
    exact elementAt_of_getElem? there

end

section

variable {world : World} {w after : Writer}

theorem put_data {bytes : List UInt8} (run : w.put bytes = .ok after) :
    after.data = w.data ++ bytes := by
  obtain ⟨limit, -, finish⟩ := of_bind run
  cases finish
  exact congrArg Buffer.bytes (@update_self _ _ _ w.current _ w.buffers)

theorem put_buffers (w : Writer) (bytes : List UInt8) (limit : Int) (segment : DataSegment) :
    (w.buffers segment).bytes <+: (Function.update w.buffers w.current
      ⟨(w.buffers w.current).bytes ++ bytes, limit⟩ segment).bytes := by
  by_cases same : segment = w.current
  · rw [same, update_self]
    exact prefix_append ..
  · rw [update_of_ne same]

theorem int4_lt (value : Int) : int4 value < 2147483648 := by
  rw [int4]
  exact bmod_lt (by decide)

theorem growAlloc_ok {alloc used need grown : Int} (small : alloc < 2147483648)
    (run : growAlloc alloc used need = .ok grown) : used + need ≤ grown ∧ grown < 2147483648 := by
  rw [growAlloc] at run
  split at run
  · rw [show (let doubled := int4 (alloc * 2)
        if used + need ≤ doubled then (.ok doubled : Except Fault Int)
        else .error .outOfMemory) = .ok grown ↔
        used + need ≤ int4 (alloc * 2) ∧ int4 (alloc * 2) = grown by
      by_cases enough : used + need ≤ int4 (alloc * 2)
      · simp [enough]
      · simp [enough]] at run
    exact ⟨run.2 ▸ run.1, run.2 ▸ int4_lt _⟩
  · rename_i enough
    cases run
    exact ⟨Int.not_lt.mp enough, small⟩

theorem put_sound {bytes : List UInt8} (run : w.put bytes = .ok after)
    (sound : Sound world w) : Sound world after := by
  obtain ⟨limit, growRun, finish⟩ := of_bind run
  obtain ⟨room, small⟩ := growAlloc_ok (sound.limits w.current) growRun
  have buffer : ∀ segment,
      (Function.update w.buffers w.current ⟨(w.buffers w.current).bytes ++ bytes, limit⟩
        segment).limit < 2147483648 ∧
      (Function.update w.buffers w.current ⟨(w.buffers w.current).bytes ++ bytes, limit⟩
        segment).bytes.length < 2147483648 := by
    intro segment
    by_cases same : segment = w.current
    · rw [same, update_self, length_append]
      exact ⟨small, by omega⟩
    · rw [update_of_ne same]
      exact ⟨sound.limits segment, sound.lengths segment⟩
  cases finish
  exact { sound with
    limits := fun segment => (buffer segment).1
    lengths := fun segment => (buffer segment).2 }

theorem put_emits {bytes : List UInt8} (nonempty : bytes ≠ []) (run : w.put bytes = .ok after) :
    Emits world w after (fun _ r => r.readBytes bytes.length) bytes := by
  have data := put_data run
  have kept := @put_sound world _ _ _ run
  obtain ⟨limit, -, finish⟩ := of_bind run
  cases finish
  constructor
  · exact { Extends.refl w with
      buffers := fun segment => put_buffers w bytes limit segment
      otherBuffers := fun segment other => update_of_ne other .. }
  · exact kept
  intro _ _
  exists bytes
  apply And.intro data
  intro r fuel tail _ _ rest
  exact Reader.readBytes_append nonempty rest

theorem signedToBytes_ne_nil (width : Nat) (value : Int) :
    signedToBytes (width + 1) value ≠ [] := cons_ne_nil _ _

theorem putInt16_emits {value : Int} (run : w.putInt16 value = .ok after) :
    Emits world w after (fun _ => Reader.readInt16) (value.bmod 65536) := by
  have emits := (@put_emits world _ _ _ (signedToBytes_ne_nil 1 value) run).map (signedOfBytes 2)
  rw [length_signedToBytes, signedOfBytes_toBytes] at emits
  exact emits

theorem putInt32_emits {value : Int} (run : w.putInt32 value = .ok after) :
    Emits world w after (fun _ => Reader.readInt32) (value.bmod 4294967296) := by
  have emits := (@put_emits world _ _ _ (signedToBytes_ne_nil 3 value) run).map (signedOfBytes 4)
  rw [length_signedToBytes, signedOfBytes_toBytes] at emits
  exact emits

theorem putPair_emits {scId idx : Int} (run : w.putPair scId idx = .ok after) :
    Emits world w after (fun _ => Reader.readPair) (scId.bmod 4294967296, idx.bmod 4294967296) := by
  have nonempty : signedToBytes 4 scId ++ signedToBytes 4 idx ≠ [] :=
    append_ne_nil_of_left_ne_nil (signedToBytes_ne_nil 3 scId) _
  have emits := (@put_emits world _ _ _ nonempty run).map fun bytes =>
    (signedOfBytes 4 (bytes.take 4), signedOfBytes 4 (bytes.drop 4))
  have left : (signedToBytes 4 scId ++ signedToBytes 4 idx).take 4 = signedToBytes 4 scId :=
    take_left' (length_signedToBytes 4 scId)
  have right : (signedToBytes 4 scId ++ signedToBytes 4 idx).drop 4 = signedToBytes 4 idx :=
    drop_left' (length_signedToBytes 4 scId)
  rw [left, right, signedOfBytes_toBytes, signedOfBytes_toBytes, length_append,
    length_signedToBytes, length_signedToBytes] at emits
  exact emits

theorem ofNat_bytes (value : BitVec 64) :
    BitVec.ofNat 64 (ofBytes (toBytes 8 value.toNat)) = value := by
  have below : value.toNat < byteSpan 8 := value.isLt
  rw [ofBytes_toBytes, Nat.mod_eq_of_lt below, BitVec.ofNat_toNat, BitVec.setWidth_eq]

theorem writeInt_emits {value : BitVec 64} (run : w.writeInt value = .ok after) :
    Emits world w after (fun _ => Reader.readInt) value := by
  have nonempty : toBytes 8 value.toNat ≠ [] := cons_ne_nil _ _
  have emits := (@put_emits world _ _ _ nonempty run).map
    fun bytes => BitVec.ofNat 64 (ofBytes bytes)
  rw [length_toBytes, ofNat_bytes] at emits
  exact emits

theorem writeNum_emits {bits : BitVec 64} (run : w.writeNum bits = .ok after) :
    Emits world w after (fun _ => Reader.readNum) bits := by
  have nonempty : toBytes 8 bits.toNat ≠ [] := cons_ne_nil _ _
  have emits := (@put_emits world _ _ _ nonempty run).map
    fun bytes => BitVec.ofNat 64 (ofBytes bytes)
  rw [length_toBytes, ofNat_bytes] at emits
  exact emits

end

theorem bmod_eq {value : Int} (least : 0 ≤ value) (small : value < 2147483648) :
    value.bmod 4294967296 = value := by
  apply bmod_eq_of_le_mul_two <;> omega

section

variable {world : World} {w after : Writer}

theorem writeStr_emits {value : Option String} (run : w.writeStr value = .ok after) :
    Emits world w after (fun _ => Reader.readStr) value := by
  have quiet := Writer.addStringToHeap_quiet world w value
  have put : (w.addStringToHeap value).1.putInt32 (w.addStringToHeap value).2 = .ok after := run
  have emits := @putInt32_emits world _ _ _ put
  apply @Emits.resolve _ _ _ _ _ _ _
    (fun idx r => r.readStringFromHeap idx >>= fun found => .ok (found, r)) _
    (emits.after_quiet quiet)
  intro sound bounded r follows
  obtain ⟨i, idx, known⟩ := Writer.addStringToHeap_index sound.toInterned value
  have there := getElem?_of_pre emits.grown.heap known
  have small := (lt_length_of_getElem? there).trans_le bounded.heap
  rw [idx, int4_eq small, bmod_eq (natCast_nonneg i) (by omega),
    readStringFromHeap_ok follows there, ok_bind]

theorem DenotesSc_small {sc : Sc} {scId : Int} (bounded : Bounded world w)
    (denotes : Writer.DenotesSc w sc scId) : scId.bmod 4294967296 = scId := by
  cases denotes with
  | current same => rfl
  | dependency i known =>
    have inside := lt_length_of_getElem? known
    have few := bounded.dependencies
    apply bmod_eq <;> omega

theorem index_small {list : List α} {element : α}
    (bounded : list.length ≤ 2147483648) (known : list[i]? = some element) :
    (i : Int).bmod 4294967296 = i := by
  have inside := lt_length_of_getElem? known
  apply bmod_eq <;> omega

theorem pair_emits {thing : Nat} {middle : Writer} {scId idx : Int} {listOf : Sc → List Nat}
    {lookup : Reader → Sc → Int → Except ReadFault Nat}
    (quiet : Quiet world w middle) (run : middle.putPair scId idx = .ok after)
    (denotes : Bounded world after → ∃ sc, Writer.DenotesSc after sc scId ∧
      (listOf sc).length ≤ 2147483648 ∧ ∃ i : Nat, idx = i ∧ (listOf sc)[i]? = some thing)
    (found : ∀ {r sc} {i : Nat}, Follows world after r → (listOf sc)[i]? = some thing →
      lookup r sc i = .ok thing) : Emits world w after (fun _ r => do
        let (pair, r) ← r.readPair let sc ← r.locateSc pair.1 let thing ← lookup r sc pair.2
        .ok (thing, r)) thing := by
  have emits := @putPair_emits world _ _ _ _ run
  apply @Emits.resolve _ _ _ _ _ _ _
    (fun pair r => r.locateSc pair.1 >>= fun sc =>
      lookup r sc pair.2 >>= fun thing => .ok (thing, r)) _ (emits.after_quiet quiet)
  intro _ bounded r follows
  obtain ⟨sc, denotesSc, few, i, rfl, known⟩ := denotes bounded
  rw [DenotesSc_small bounded denotesSc, index_small few known,
    locateSc_ok follows denotesSc, ok_bind, found follows known, ok_bind]

theorem writeObjRef_emits {obj : Obj} (run : w.writeObjRef world obj = .ok after) :
    Emits world w after (fun _ => Reader.readObjRef) obj := by
  obtain ⟨⟨middle, scId, idx⟩, infoRun, putRun⟩ := of_bind run
  obtain ⟨quiet, denotes⟩ := Writer.getObjectRefInfo_spec infoRun
  have grown := (@putPair_emits world _ _ _ _ putRun).grown.toGrown
  apply @pair_emits world _ _ _ _ _ _ (after.rootObjects world) Reader.getObject quiet putRun
  · intro bounded
    obtain ⟨sc, denotesSc, known⟩ := (denotes (bounded.of_grown grown)).of_grown grown
    exact ⟨sc, denotesSc, bounded.objects sc, known⟩
  intro r sc i follows known
  have there := getElem?_of_pre (follows.objects sc) known
  rw [Reader.getObject, if_neg (not_length_le there)]
  exact elementAt_of_getElem? there

theorem writeStableRef_emits {st : STable} (run : w.writeStableRef world st = .ok after) :
    Emits world w after (fun _ => Reader.readStableRef) st := by
  obtain ⟨⟨middle, scId, idx⟩, infoRun, putRun⟩ := of_bind run
  obtain ⟨quiet, denotes⟩ := Writer.getStableRefInfo_spec infoRun
  have grown := (@putPair_emits world _ _ _ _ putRun).grown.toGrown
  apply @pair_emits world _ _ _ _ _ _ (after.rootStables world) Reader.getStable quiet putRun
  · intro bounded
    obtain ⟨sc, denotesSc, known⟩ := (denotes (bounded.of_grown grown)).of_grown grown
    exact ⟨sc, denotesSc, bounded.stables sc, known⟩
  intro r sc i follows known
  have there := getElem?_of_pre (follows.stables sc) known
  rw [Reader.getStable, if_neg (not_length_le there)]
  exact elementAt_of_getElem? there

theorem writeCodeRef_emits {code : Code} (run : w.writeCodeRef world code = .ok after) :
    Emits world w after (fun _ => Reader.readCodeRef) code := by
  obtain ⟨codeSc, -, run⟩ := of_bind run
  obtain ⟨⟨middle, scId⟩, scRun, run⟩ := of_bind run
  obtain ⟨idx, findRun, putRun⟩ := of_bind run
  have grown := (@putPair_emits world _ _ _ _ putRun).grown.toGrown
  apply @pair_emits world _ _ _ _ _ _ (after.rootCodes world) Reader.getCode
    (Writer.getScId_quiet scRun) putRun
  · intro bounded
    have middleBounded := bounded.of_grown grown
    have known := Writer.findCodeIdx_ok findRun
    have small := (lt_length_of_getElem? known).trans_le (middleBounded.codes _)
    have denotesSc := Writer.getScId_denotes middleBounded.dependencies scRun
    exact ⟨codeSc, denotesSc.of_grown grown, bounded.codes codeSc, idx, int4_eq small,
      getElem?_of_pre (grown.rootCodes world codeSc) known⟩
  intro r sc i follows known
  have there := getElem?_of_pre (follows.codes sc) known
  rw [Reader.getCode, if_neg (not_length_le there)]
  exact elementAt_of_getElem? there

end

variable {w middle after : Writer}

section

variable {world : World} {readOne : Nat → Reader → Except ReadFault (α × Reader)} {values : List α}
  {length : Nat}

theorem many_cons {value : α} {count : Nat} (one : Emits world w middle readOne value)
    (others : Emits world middle after (fun fuel => Reader.readMany (readOne fuel) count) values) :
    Emits world w after (fun fuel => Reader.readMany (readOne fuel) (count + 1))
      (value :: values) :=
  @Emits.bind _ _ _ _ _ _ _ _
    (fun element fuel r => Reader.readMany (readOne fuel) count r >>= fun answer =>
      .ok (element :: answer.1, answer.2)) _ one (others.map (value :: ·))

theorem counted_emits (small : length < 2147483648)
    (run : w.putInt32 (Writer.elementCount length) = .ok middle) (loop : Emits world middle after
      (fun fuel => Reader.readMany (readOne fuel) length) values) :
    Emits world w after (fun fuel r => r.readCounted (readOne fuel)) values := by
  have count := @putInt32_emits world _ _ _ run
  rw [Writer.elementCount, int4_eq small, bmod_eq (natCast_nonneg length) (by omega)] at count
  exact @Emits.bind _ _ _ _ _ _ _ _
    (fun elems fuel r => Reader.readMany (readOne fuel) elems.toNat r) _ count loop

theorem elementCount_toNat (small : length < 2147483648) :
    (Writer.elementCount length).toNat = length := by
  rw [Writer.elementCount, int4_eq small, toNat_natCast]

end

section

variable {world : World} {w after : Writer}

theorem writeInts_emits {values : List (BitVec 64)}
    (run : w.writeInts values.length values = .ok after) :
    Emits world w after (fun _ => Reader.readMany Reader.readInt values.length) values := by
  induction values generalizing w with
  | nil =>
    cases run
    exact Emits.nothing world _ []
  | cons value values ih =>
    obtain ⟨middle, oneRun, othersRun⟩ := of_bind run
    exact many_cons (writeInt_emits oneRun) (ih othersRun)

theorem writeStrs_emits {values : List (Option String)}
    (run : w.writeStrs values.length values = .ok after) :
    Emits world w after (fun _ => Reader.readMany Reader.readStr values.length) values := by
  induction values generalizing w with
  | nil =>
    cases run
    exact Emits.nothing world _ []
  | cons value values ih =>
    obtain ⟨middle, oneRun, othersRun⟩ := of_bind run
    exact many_cons (writeStr_emits oneRun) (ih othersRun)

end

variable {entries : List (String × VMValue)} {value : VMValue}

theorem setKeyed_of_new {key : String} (new : key ∉ entries.map Prod.fst) :
    Reader.setKeyed entries key value = entries ++ [(key, value)] := by
  induction entries with
  | nil => rfl
  | cons entry entries ih =>
    rw [map_cons, mem_cons, not_or] at new
    rw [Reader.setKeyed, if_neg (Ne.symm new.1), ih new.2, cons_append]

theorem foldl_setKeyed {hash : List (String × VMValue)}
    (distinct : ((hash ++ entries).map Prod.fst).Nodup) :
    entries.foldl (fun hash entry => Reader.setKeyed hash entry.1 entry.2) hash =
      hash ++ entries := by
  induction entries generalizing hash with
  | nil => exact (append_nil hash).symm
  | cons entry entries ih =>
    have new : entry.1 ∉ hash.map Prod.fst := by
      intro present
      rw [map_append, nodup_append] at distinct
      exact distinct.2.2 entry.1 present entry.1 (by simp) rfl
    have joined : hash ++ [entry] ++ entries = hash ++ entry :: entries := append_assoc ..
    rw [foldl_cons, setKeyed_of_new new, ih (joined ▸ distinct), joined]

theorem hashOf_of_nodup
    (distinct : (entries.map Prod.fst).Nodup) : Reader.hashOf entries = entries :=
  @foldl_setKeyed entries [] distinct

theorem readBackEntries_keys (entries : List (String × VMValue)) :
    (VMValue.readBackEntries entries).map Prod.fst = entries.map Prod.fst := by
  induction entries with
  | nil => rw [VMValue.readBackEntries]
  | cons entry entries ih =>
    rw [VMValue.readBackEntries, map_cons, map_cons, ih]

section

variable {world : World} {discrim : Int}

theorem discriminated (small : discrim.bmod 65536 = discrim) (run : w.putInt16 discrim = .ok middle)
    (action : Emits world middle after
      (fun fuel => Reader.readAction (Reader.readRefWith fuel) discrim) value) :
    Emits world w after Reader.readRefWith value where
  grown := (@putInt16_emits world _ _ _ run).grown.trans action.grown
  sound := fun sound => action.sound ((@putInt16_emits world _ _ _ run).sound sound)
  encoded := by
    intro sound bounded
    have head := @putInt16_emits world _ _ _ run
    rw [small] at head
    obtain ⟨headBytes, headData, headRead⟩ :=
      head.encoded sound (bounded.of_grown action.grown.toGrown)
    obtain ⟨bytes, data, actionRead⟩ := action.encoded (head.sound sound) bounded
    have two : headBytes.length = 2 := by
      have same := append_cancel_left (headData.symm.trans (put_data run))
      rw [same, length_signedToBytes]
    exists headBytes ++ bytes
    constructor
    · rw [data, headData, append_assoc]
    intro r fuel tail follows enough rest
    rw [length_append] at enough
    rw [append_assoc] at rest
    -- The discriminator leaves at least one level of fuel for what it calls for.
    obtain ⟨deeper, rfl⟩ : ∃ deeper, fuel = deeper + 1 := ⟨fuel - 1, by omega⟩
    have readHead := @headRead r 2 _ (follows.of_grown action.grown.toGrown) two.le rest
    have readAction := @actionRead _ deeper _ (follows.advance headBytes.length) (by omega)
      (Reader.rest_advance rest)
    rw [Reader.readRefWith, readHead, ok_bind, length_append, ← Reader.advance_advance]
    exact readAction

theorem code_emits {code : Code} (known : discrim = 11 ∨ discrim = 12)
    (put : w.putInt16 discrim = .ok middle) (run : middle.writeCodeRef world code = .ok after) :
    Emits world w after Reader.readRefWith (.code code) := by
  rcases known with rfl | rfl
  all_goals exact discriminated rfl put ((writeCodeRef_emits run).map VMValue.code)

end

mutual

/-- A reference to anything comes back as what it leads to. -/
theorem writeRef_emits (world : World) : ∀ {w after : Writer} (value : VMValue),
    value.Fits → w.writeRef world value = .ok after →
      Emits world w after Reader.readRefWith value.readBack
  | _, _, .null, _, run | _, _, .vmNull, _, run => discriminated rfl run (Emits.nothing ..)
  | _, _, .undef, _, run | _, _, .dropped _, _, run => discriminated rfl run (Emits.nothing ..)
  | _, _, .object obj, _, run => by
    obtain ⟨middle, put, run⟩ := of_bind run
    exact discriminated rfl put ((writeObjRef_emits run).map VMValue.object)
  | _, _, .int value, _, run => by
    obtain ⟨middle, put, run⟩ := of_bind run
    exact discriminated rfl put ((writeInt_emits run).map VMValue.int)
  | _, _, .num bits, _, run => by
    obtain ⟨middle, put, run⟩ := of_bind run
    exact discriminated rfl put ((writeNum_emits run).map VMValue.num)
  | _, _, .str value, _, run => by
    obtain ⟨middle, put, run⟩ := of_bind run
    exact discriminated rfl put ((writeStr_emits run).map VMValue.str)
  | _, _, .array elements, fits, run => by
    rw [VMValue.Fits] at fits
    rw [Writer.writeRef, elementCount_toNat fits.1] at run
    obtain ⟨middle, put, run⟩ := of_bind run
    obtain ⟨counted, count, run⟩ := of_bind run
    have loop := writeElements_emits world elements fits.2 run
    rw [VMValue.readBack]
    exact discriminated rfl put ((counted_emits fits.1 count loop).map VMValue.array)
  | _, _, .strArray elements, fits, run => by
    rw [VMValue.Fits] at fits
    rw [Writer.writeRef, elementCount_toNat fits] at run
    obtain ⟨middle, put, run⟩ := of_bind run
    obtain ⟨counted, count, run⟩ := of_bind run
    exact discriminated rfl put
      ((counted_emits fits count (writeStrs_emits run)).map VMValue.strArray)
  | _, _, .intArray elements, fits, run => by
    rw [VMValue.Fits] at fits
    rw [Writer.writeRef, elementCount_toNat fits] at run
    obtain ⟨middle, put, run⟩ := of_bind run
    obtain ⟨counted, count, run⟩ := of_bind run
    exact discriminated rfl put
      ((counted_emits fits count (writeInts_emits run)).map VMValue.intArray)
  | _, _, .hash entries, fits, run => by
    rw [VMValue.Fits] at fits
    obtain ⟨middle, put, run⟩ := of_bind run
    obtain ⟨counted, count, run⟩ := of_bind run
    have loop := writeEntries_emits world entries fits.2.2 run
    have distinct := fits.1
    rw [← readBackEntries_keys] at distinct
    have emits := (counted_emits fits.2.1 count loop).map fun read =>
      VMValue.hash (Reader.hashOf read)
    rw [hashOf_of_nodup distinct] at emits
    rw [VMValue.readBack]
    exact discriminated rfl put emits
  | _, _, .code code, _, run => by
    obtain ⟨⟨middle, discrim⟩, discrimRun, run⟩ := of_bind run
    obtain ⟨counted, put, run⟩ := of_bind run
    obtain ⟨quiet, known⟩ := Writer.codeDiscriminator_quiet discrimRun
    exact (code_emits known put run).after_quiet quiet
  | _, _, .parrotObject _, _, run => by cases run
  | _, _, .unimplemented _, _, run => by cases run

theorem writeElements_emits (world : World) : ∀ {w after : Writer} (values : List VMValue),
    VMValue.AllFit values → w.writeElements world values.length values = .ok after →
      Emits world w after (fun fuel => Reader.readMany (Reader.readRefWith fuel) values.length)
        (VMValue.readBackAll values)
  | _, _, [], _, run => by
    cases run
    exact Emits.nothing world _ []
  | _, _, value :: values, fits, run => by
    rw [VMValue.AllFit] at fits
    obtain ⟨middle, oneRun, othersRun⟩ := of_bind run
    exact many_cons (writeRef_emits world value fits.1 oneRun)
      (writeElements_emits world values fits.2 othersRun)

theorem writeEntries_emits (world : World) : ∀ {w after : Writer}
    (entries : List (String × VMValue)), VMValue.EntriesFit entries →
      w.writeEntries world entries = .ok after → Emits world w after
        (fun fuel => Reader.readMany (Reader.readEntry (Reader.readRefWith fuel)) entries.length)
        (VMValue.readBackEntries entries)
  | _, _, [], _, run => by
    cases run
    exact Emits.nothing world _ []
  | _, _, (key, value) :: entries, fits, run => by
    rw [VMValue.EntriesFit] at fits
    obtain ⟨keyed, keyRun, run⟩ := of_bind run
    obtain ⟨middle, oneRun, othersRun⟩ := of_bind run
    have valueEmits := (writeRef_emits world value fits.1 oneRun).map (key, ·)
    have entryEmits : Emits world _ middle
        (fun fuel => Reader.readEntry (Reader.readRefWith fuel)) (key, value.readBack) :=
      @Emits.bind _ _ _ _ _ _ _ _
        (fun key fuel r => Reader.readRefWith fuel r >>= fun answer =>
          match key with
          | some key => .ok ((key, answer.1), answer.2)
          | none => .error .nullKey) _ (writeStr_emits keyRun) valueEmits
    exact many_cons entryEmits (writeEntries_emits world entries fits.2 othersRun)

end

variable {w after : Writer} {world : World}

theorem readRef_emits (emits : Emits world w after Reader.readRefWith value) :
    Emits world w after (fun _ => Reader.readRef) value where
  grown := emits.grown
  sound := emits.sound
  encoded := by
    intro sound bounded
    obtain ⟨bytes, data, readBack⟩ := emits.encoded sound bounded
    exists bytes
    apply And.intro data
    intro r fuel tail follows enough rest
    have count := congrArg length rest
    rw [length_append] at count
    exact readBack follows (by omega) rest

theorem writeItem_emits {item : Item} (fits : item.Fits)
    (run : w.writeItem world item = .ok after) :
    Emits world w after (fun _ r => r.readItem item.kind) item.readBack := by
  cases item with
  | int value => exact (writeInt_emits run).map Item.int
  | num bits => exact (writeNum_emits run).map Item.num
  | str value => exact (writeStr_emits run).map Item.str
  | ref value => exact (readRef_emits (writeRef_emits world value fits run)).map Item.ref
  | objRef obj => exact (writeObjRef_emits run).map Item.objRef
  | stableRef st => exact (writeStableRef_emits run).map Item.stableRef

theorem writeItems_emits {items : List Item}
    (fit : ∀ item ∈ items, item.Fits) (run : w.writeItems world items = .ok after) :
    Emits world w after (fun _ r => r.readItems (items.map Item.kind))
      (items.map Item.readBack) := by
  induction items generalizing w with
  | nil =>
    cases run
    exact Emits.nothing world _ []
  | cons item items ih =>
    obtain ⟨middle, itemRun, itemsRun⟩ := of_bind run
    have first := writeItem_emits (fit item (mem_cons_self ..)) itemRun
    have others := ih (forall_mem_cons.mp fit).2 itemsRun
    exact @Emits.bind _ _ _ _ _ _ _ _
      (fun item _ r => r.readItems (items.map Item.kind) >>= fun answer =>
        .ok (item :: answer.1, answer.2)) _ first (others.map (item.readBack :: ·))

/-- Whatever sequence of values is written, the same sequence of reads gives it back
and stops at the byte where the writer stopped, whatever follows there. -/
theorem written_is_read_back {world : World} {w after : Writer} {items : List Item}
    {r : Reader} {tail : List UInt8} (sound : Sound world w) (fit : ∀ item ∈ items, item.Fits)
    (run : w.writeItems world items = .ok after) (bounded : Bounded world after)
    (follows : Follows world after r) (data : r.data = after.data ++ tail)
    (offset : r.offset = w.data.length) : r.readItems (items.map Item.kind) =
      .ok (items.map Item.readBack, { r with offset := after.data.length }) := by
  obtain ⟨bytes, written, readBack⟩ := (writeItems_emits fit run).encoded sound bounded
  have rest : r.rest = bytes ++ tail := by
    rw [Reader.rest, data, offset, written, append_assoc, drop_left]
  have reached : { r with offset := after.data.length } = r.advance bytes.length := by
    rw [Reader.advance, offset, written, length_append]
  rw [reached]
  exact @readBack r bytes.length tail follows le_rfl rest

theorem start_sound (world : World) (roots : Roots) : Sound world (Writer.start roots) where
  nullString := rfl
  seen := by
    intro s idx impossible
    cases impossible
  names := List.Forall₂.nil
  limits := by
    intro segment
    cases segment with
    | stables => exact show (4096 : Int) < 2147483648 by decide
    | objects => exact int4_lt _
    | contexts => exact show (1024 : Int) < 2147483648 by decide
  lengths := by
    intro segment
    cases segment with
    | stables | objects | contexts => exact Nat.zero_lt_succ _

section

/-- A world in which nothing is known. -/
def bareWorld : World where
  handle := fun _ => none
  description := fun _ => none
  stablesOf := fun _ => []
  objectsOf := fun _ => []
  codesOf := fun _ => []
  stable := fun _ =>
    { reprName := some "P6opaque", how := 0, what := 0, who := .vmNull, methodCache := .vmNull
      vtable := [], typeCheckCache := [], modeFlags := 0, boolificationSpec := none
      containerSpec := none, reprData := [] }
  object := fun _ => { isSixModelObject := true, stable := 0, concrete := false, body := none }
  code := fun _ =>
    { name := "", lexInfo := .null, isStaticCodeRef := false, compilerStub := false
      outerCtx := none, codeObject := none }
  ctx := fun _ => { currentSub := 0, outerCtx := none, lexicals := [] }

/-- A context with nothing in it, while nothing is in any context. -/
def bareRoots : Roots where
  sc := 0
  stables := []
  objects := []
  codes := []
  scOfStable := fun _ => none
  scOfObject := fun _ => none
  scOfCode := fun _ => none
  scOfCtx := fun _ => none
  repossessions := []

/-- The reader of some data, with the tables that a writer has. -/
def readerOf (world : World) (w : Writer) (data : List UInt8) : Reader where
  sc := w.sc
  dependentScs := w.dependentScs
  stringHeap := w.stringHeap
  stablesOf := w.rootStables world
  objectsOf := w.rootObjects world
  codesOf := w.rootCodes world
  data := data
  offset := 0

theorem readerOf_follows (world : World) (w : Writer) (data : List UInt8) :
    Follows world w (readerOf world w data) where
  sc := rfl
  heap := prefix_rfl
  dependencies := prefix_rfl
  stables := fun _ => prefix_rfl
  objects := fun _ => prefix_rfl
  codes := fun _ => prefix_rfl

def smallItems : List Item :=
  [.str (some "a"), .ref (.hash [("k", .object 7), ("a", .array [.int 5, .undef])]), .num 3]

def smallWritten : Writer :=
  match (Writer.start bareRoots).writeItems bareWorld smallItems with
  | .ok after => after
  | .error _ => Writer.start bareRoots

theorem smallItems_succeed :
    ((Writer.start bareRoots).writeItems bareWorld smallItems).isOk = true := by
  decide +kernel

theorem smallItems_run :
    (Writer.start bareRoots).writeItems bareWorld smallItems = .ok smallWritten := by
  have succeed := smallItems_succeed
  rw [smallWritten]
  cases run : (Writer.start bareRoots).writeItems bareWorld smallItems with
  | error failure =>
    rw [run] at succeed
    cases succeed
  | ok after => rfl

theorem smallWritten_bounded : Bounded bareWorld smallWritten where
  heap := by decide +kernel
  dependencies := by decide +kernel
  stables := by
    intro sc
    rw [Writer.rootStables]
    split
    · decide +kernel
    · exact Nat.zero_le _
  objects := by
    intro sc
    rw [Writer.rootObjects]
    split
    · decide +kernel
    · exact Nat.zero_le _
  codes := by
    intro sc
    rw [Writer.rootCodes]
    split
    · decide +kernel
    · exact Nat.zero_le _

/-- A string, a hash with an array in it and a number, written and read back. -/
theorem written_is_read_back_small :
    ∃ r, (readerOf bareWorld smallWritten smallWritten.data).readItems
        [.str, .ref, .num] = .ok ([.str (some "a"),
        .ref (.hash [("k", .object 7), ("a", .array [.int 5, .vmNull])]), .num 3], r) := by
  have fit : ∀ item ∈ smallItems, item.Fits := by
    intro item member
    simp only [smallItems, mem_cons, not_mem_nil, or_false] at member
    rcases member with rfl | rfl | rfl
    · trivial
    · simp [Item.Fits, VMValue.Fits, VMValue.EntriesFit, VMValue.AllFit]
    · trivial
  have kinds : smallItems.map Item.kind = [.str, .ref, .num] := rfl
  have back : smallItems.map Item.readBack =
      [.str (some "a"), .ref (.hash [("k", .object 7), ("a", .array [.int 5, .vmNull])]),
        .num 3] := by
    simp [smallItems, Item.readBack, VMValue.readBack, VMValue.readBackEntries, VMValue.readBackAll]
  have data : (readerOf bareWorld smallWritten smallWritten.data).data =
      smallWritten.data ++ [] := by
    rw [append_nil, readerOf]
  have offset : (readerOf bareWorld smallWritten smallWritten.data).offset =
      (Writer.start bareRoots).data.length := by
    rw [readerOf]
    rfl
  have follows := readerOf_follows bareWorld smallWritten smallWritten.data
  rw [← kinds, ← back]
  exact ⟨_, written_is_read_back (start_sound bareWorld bareRoots) fit smallItems_run
    smallWritten_bounded follows data offset⟩

end

theorem writeRef_overlong (world : World) (w : Writer) {elements : List (BitVec 64)}
    (long : elements.length = 2147483648) : w.writeRef world (.intArray elements) =
      (w.putInt16 9 >>= fun w => w.putInt32 (-2147483648)) := by
  have wrapped : Writer.elementCount elements.length = -2147483648 := by
    rw [long, Writer.elementCount, int4]
    rfl
  have none : Int.toNat (-2147483648) = 0 := rfl
  rw [Writer.writeRef, wrapped, none]
  simp only [Writer.writeInts]
  cases w.putInt16 9 with
  | error failure => rfl
  | ok middle =>
    rw [ok_bind, ok_bind]
    cases middle.putInt32 (-2147483648) <;> rfl

theorem put_bounded {bytes : List UInt8}
    (bounded : Bounded world w) (run : w.put bytes = .ok after) : Bounded world after := by
  obtain ⟨limit, -, finish⟩ := of_bind run
  cases finish
  exact ⟨bounded.heap, bounded.dependencies, bounded.stables, bounded.objects, bounded.codes⟩

theorem bareRoots_bounded : Bounded bareWorld (Writer.start bareRoots) where
  heap := by decide
  dependencies := by decide
  stables := by
    intro sc
    rw [Writer.rootStables]
    split
    · exact Nat.zero_le _
    · exact Nat.zero_le _
  objects := by
    intro sc
    rw [Writer.rootObjects]
    split
    · exact Nat.zero_le _
    · exact Nat.zero_le _
  codes := by
    intro sc
    rw [Writer.rootCodes]
    split
    · exact Nat.zero_le _
    · exact Nat.zero_le _

/-- An array of 2^31 integers is written without an error and does not come back. -/
theorem overlong_array_does_not_come_back :
    ¬ ∀ (world : World) (w after : Writer) (value : VMValue) (r : Reader), Sound world w →
      w.writeRef world value = .ok after → Bounded world after → Follows world after r →
      r.data = after.data → r.offset = w.data.length →
        r.readRef = .ok (value.readBack, { r with offset := after.data.length }) := by
  intro always
  obtain ⟨elements, long⟩ : ∃ elements : List (BitVec 64), elements.length = 2147483648 :=
    ⟨replicate 2147483648 0, length_replicate⟩
  obtain ⟨middle, first⟩ : ∃ middle, (Writer.start bareRoots).putInt16 9 = .ok middle := ⟨_, rfl⟩
  obtain ⟨after, second⟩ : ∃ after, middle.putInt32 (-2147483648) = .ok after := by
    cases first
    exact ⟨_, rfl⟩
  have run : (Writer.start bareRoots).writeRef bareWorld (.intArray elements) = .ok after := by
    rw [writeRef_overlong bareWorld _ long, first, ok_bind, second]
  have bounded := put_bounded (put_bounded bareRoots_bounded first) second
  have follows := readerOf_follows bareWorld after after.data
  have read := always bareWorld _ after (.intArray elements) _ (start_sound bareWorld bareRoots) run
    bounded follows rfl rfl
  -- The reader sees a negative count and reads no element.
  have count := @putInt32_emits bareWorld _ _ _ second
  have loop : Emits bareWorld after after
      (fun _ => Reader.readMany Reader.readInt (Int.toNat (-2147483648))) [] :=
    Emits.nothing ..
  have counted : Emits bareWorld middle after (fun _ => Reader.readCounted Reader.readInt) [] :=
    @Emits.bind _ _ _ _ _ _ _ _ (fun elems _ => Reader.readMany Reader.readInt elems.toNat) _
      count loop
  have emits := readRef_emits (discriminated rfl first (counted.map VMValue.intArray))
  obtain ⟨bytes, written, readBack⟩ := emits.encoded (start_sound bareWorld bareRoots) bounded
  have rest : (readerOf bareWorld after after.data).rest = bytes ++ [] := by
    rw [append_nil]
    exact written
  have empty := @readBack _ bytes.length [] follows le_rfl rest
  have kept : (VMValue.intArray elements).readBack = .intArray elements := rfl
  rw [empty, kept] at read
  injection read with same
  injection same with values
  injection values with noElements
  rw [← noElements] at long
  cases long

end RakudoStar.Serialization
