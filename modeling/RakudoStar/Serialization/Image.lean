import RakudoStar.Serialization.Base64
import RakudoStar.Serialization.Completeness
import RakudoStar.Serialization.Header

/-!
# The serialized image

`concatenate_outputs` puts the tables and the data behind the header. `check_and_disect_input` finds
them where the header says, and every 32-bit read of a row gives what was written there.
-/

namespace RakudoStar.Serialization

open List Foundation

/-- The integers that are written to a row. -/
def DependencyRow.fields (row : DependencyRow) : List Int := [row.handle, row.description]

def StableRow.fields (row : StableRow) : List Int := [row.reprName, row.dataOffset]

def ObjectRow.fields (row : ObjectRow) : List Int :=
  [row.stableSc, row.stableIdx, row.dataOffset, row.concrete]

/-- The place of the code object is not written if there is none: the storage holds something. -/
def ClosureRow.fields (held : Int × Int) (row : ClosureRow) : List Int :=
  [row.staticSc, row.staticIdx, row.contextIdx] ++
    match row.codeObject with
    | some (sc, idx) => [1, sc, idx]
    | none => [0, held.1, held.2]

def ContextRow.fields (row : ContextRow) : List Int :=
  [row.staticSc, row.staticIdx, row.dataOffset, row.outerIdx]

def RepossessionRow.fields (row : RepossessionRow) : List Int :=
  [if row.isStable then 1 else 0, row.objIdx, row.origSc, row.origIdx]

def Header.fields (header : Header) : List Int :=
  [header.version, header.dependencies.1, header.dependencies.2, header.stables.1,
    header.stables.2, header.stablesData, header.objects.1, header.objects.2, header.objectsData,
    header.closures.1, header.closures.2, header.contexts.1, header.contexts.2,
    header.contextsData, header.repossessions.1, header.repossessions.2]

/-- Rows, one behind the other. -/
def tableBytes (rows : List (List Int)) : List UInt8 := rows.flatMap headerBytes

namespace Serialized

variable (held : Nat → Int × Int) (s : Serialized)

def closureFields : List (List Int) :=
  s.writer.closuresTable.mapIdx fun i row => row.fields (held i)

/-- What `concatenate_outputs` copies behind the header. -/
def segments : List (List UInt8) :=
  [tableBytes (s.writer.dependenciesTable.map DependencyRow.fields),
    tableBytes (s.writer.stablesTable.map StableRow.fields), (s.writer.buffers .stables).bytes,
    tableBytes (s.writer.objectsTable.map ObjectRow.fields), (s.writer.buffers .objects).bytes,
    tableBytes (s.closureFields held), tableBytes (s.writer.contextsTable.map ContextRow.fields),
    (s.writer.buffers .contexts).bytes, tableBytes (s.repossessions.map RepossessionRow.fields)]

/-- The output of `concatenate_outputs`, before it is encoded. -/
def image : List UInt8 := headerBytes s.header.fields ++ (s.segments held).flatten

end Serialized

/-- `read_int32` gives the integers of every row of a table. -/
def ReadsTable (data : List UInt8) (table num entrySize : Int) (rows : List (List Int)) : Prop :=
  num = rows.length ∧ ∀ (i k : Nat) (row : List Int) (value : Int),
    rows[i]? = some row → row[k]? = some value →
      int32At data ((table + i * entrySize).toNat + 4 * k) = int4 value

/-- A segment with its reading limit. -/
def ReadsData (data : List UInt8) (start stop : Int) (bytes : List UInt8) : Prop :=
  stop = start + bytes.length ∧ (data.drop start.toNat).take bytes.length = bytes

/-- The reader's tables and data segments are the writer's. -/
structure Serialized.ReadBack (held : Nat → Int × Int) (s : Serialized) (data : List UInt8)
    (root : Root) : Prop where
  dependencies : ReadsTable data root.dependenciesTable root.numDependencies depTableEntrySize
    (s.writer.dependenciesTable.map DependencyRow.fields)
  stables : ReadsTable data root.stablesTable root.numStables stablesTableEntrySize
    (s.writer.stablesTable.map StableRow.fields)
  stablesData : ReadsData data root.stablesData root.stablesDataEnd
    (s.writer.buffers .stables).bytes
  objects : ReadsTable data root.objectsTable root.numObjects objectsTableEntrySize
    (s.writer.objectsTable.map ObjectRow.fields)
  objectsData : ReadsData data root.objectsData root.objectsDataEnd
    (s.writer.buffers .objects).bytes
  closures : ReadsTable data root.closuresTable root.numClosures closuresTableEntrySize
    (s.closureFields held)
  contexts : ReadsTable data root.contextsTable root.numContexts contextsTableEntrySize
    (s.writer.contextsTable.map ContextRow.fields)
  contextsData : ReadsData data root.contextsData root.contextsDataEnd
    (s.writer.buffers .contexts).bytes
  repossessions : ReadsTable data root.reposTable root.numRepos reposTableEntrySize
    (s.repossessions.map RepossessionRow.fields)

theorem length_headerBytes (fields : List Int) :
    (headerBytes fields).length = 4 * fields.length := by
  induction fields with
  | nil => rfl
  | cons field fields ih =>
    rw [headerBytes, flatMap_cons, length_append, length_signedToBytes, ← headerBytes, ih,
      length_cons]
    omega

theorem length_tableBytes {rows : List (List Int)} {width : Nat}
    (uniform : ∀ row ∈ rows, row.length = width) :
    (tableBytes rows).length = 4 * width * rows.length := by
  induction rows with
  | nil => rfl
  | cons row rows ih =>
    rw [tableBytes, flatMap_cons, length_append, length_headerBytes, uniform row (by simp),
      ← tableBytes, ih fun other later => uniform other (by simp [later]), length_cons,
      Nat.mul_succ, Nat.add_comm]

/-- A field read where it was written. -/
theorem int32At_headerBytes {fields : List Int} {k : Nat} {value : Int}
    (before after : List UInt8) (at_k : fields[k]? = some value) :
    int32At (before ++ (headerBytes fields ++ after)) (before.length + 4 * k) = int4 value := by
  induction fields generalizing before k with
  | nil => simp at at_k
  | cons field fields ih =>
    cases k with
    | zero =>
      obtain rfl : field = value := by simpa using at_k
      unfold int32At int4
      rw [Nat.mul_zero, Nat.add_zero, drop_left, headerBytes, flatMap_cons, append_assoc,
        take_left' (length_signedToBytes 4 field), signedOfBytes_toBytes]
      rfl
    | succ k =>
      have read := ih (before ++ signedToBytes 4 field) (k := k) (by simpa using at_k)
      rw [length_append, length_signedToBytes] at read
      rw [headerBytes, flatMap_cons, append_assoc, ← append_assoc before, ← headerBytes, ← read]
      congr 1
      omega

variable {width : Nat} {rows : List (List Int)}

theorem int32At_tableBytes (uniform : ∀ row ∈ rows, row.length = width) {i k : Nat}
    {row : List Int} {value : Int} (before after : List UInt8) (at_i : rows[i]? = some row)
    (at_k : row[k]? = some value) :
    int32At (before ++ (tableBytes rows ++ after)) (before.length + 4 * width * i + 4 * k) =
      int4 value := by
  induction rows generalizing before i with
  | nil => simp at at_i
  | cons first rows ih =>
    rw [tableBytes, flatMap_cons, append_assoc, ← tableBytes]
    cases i with
    | zero =>
      obtain rfl : first = row := by simpa using at_i
      exact int32At_headerBytes before _ at_k
    | succ i =>
      have read := ih (fun other later => uniform other (by simp [later]))
        (before ++ headerBytes first) (by simpa using at_i)
      rw [length_append, length_headerBytes, uniform first (by simp), append_assoc] at read
      rw [← read]
      congr 1
      rw [Nat.mul_succ]
      omega

theorem readsTable_of_append {data before after : List UInt8} {table num entrySize : Int}
    (uniform : ∀ row ∈ rows, row.length = width)
    (split : data = before ++ (tableBytes rows ++ after))
    (start : table = before.length) (size : entrySize = 4 * width) (count : num = rows.length) :
    ReadsTable data table num entrySize rows := by
  refine ⟨count, fun i k row value at_i at_k => ?_⟩
  have place : (before.length : Int) + i * (4 * width) = ↑(before.length + 4 * width * i) := by
    push_cast
    rw [Int.mul_comm]
  rw [split, start, size, place, Int.toNat_natCast]
  exact int32At_tableBytes uniform before after at_i at_k

theorem readsData_of_append {data before bytes after : List UInt8} {start stop : Int}
    (split : data = before ++ (bytes ++ after)) (begins : start = before.length)
    (ends : stop = start + bytes.length) : ReadsData data start stop bytes := by
  refine ⟨ends, ?_⟩
  rw [split, begins, Int.toNat_natCast, drop_left, take_left]

theorem plus4_eq {left right : Int} (low : 0 ≤ left + right) (high : left + right < 2147483648) :
    plus4 left right = left + right := by
  rw [plus4, int4, Int.bmod_eq_of_le] <;> omega

theorem tableSize_eq {rows entrySize : Nat} (high : rows * entrySize < 2147483648) :
    tableSize rows entrySize = rows * entrySize := by
  rw [tableSize, ← Int.natCast_mul, int4_eq high]

namespace Serialized

variable {held : Nat → Int × Int} {s : Serialized}

theorem length_closureFields : (s.closureFields held).length = s.writer.closuresTable.length :=
  length_mapIdx

theorem closureFields_uniform : ∀ row ∈ s.closureFields held, row.length = 6 := by
  intro row member
  rcases mem_mapIdx.mp member with ⟨i, bound, rfl⟩
  rw [ClosureRow.fields]
  split <;> rfl

theorem uniform_map (width : Nat) {Row : Type} (fields : Row → List Int) (rows : List Row)
    (uniform : ∀ row, (fields row).length = width) :
    ∀ row ∈ rows.map fields, row.length = width := by
  intro row member
  rcases mem_map.mp member with ⟨row, _, rfl⟩
  exact uniform row

theorem lengths_segments : (s.segments held).map length =
    [8 * s.writer.dependenciesTable.length, 8 * s.writer.stablesTable.length,
      (s.writer.buffers .stables).bytes.length, 16 * s.writer.objectsTable.length,
      (s.writer.buffers .objects).bytes.length, 24 * s.writer.closuresTable.length,
      16 * s.writer.contextsTable.length, (s.writer.buffers .contexts).bytes.length,
      16 * s.repossessions.length] := by
  simp only [segments, map_cons, map_nil,
    length_tableBytes (uniform_map 2 DependencyRow.fields _ fun _ => rfl),
    length_tableBytes (uniform_map 2 StableRow.fields _ fun _ => rfl),
    length_tableBytes (uniform_map 4 ObjectRow.fields _ fun _ => rfl),
    length_tableBytes (uniform_map 4 ContextRow.fields _ fun _ => rfl),
    length_tableBytes (uniform_map 4 RepossessionRow.fields _ fun _ => rfl),
    length_tableBytes closureFields_uniform, length_closureFields, length_map, Nat.reduceMul]

theorem length_image : (s.image held).length = 64 + 8 * s.writer.dependenciesTable.length +
    8 * s.writer.stablesTable.length + (s.writer.buffers .stables).bytes.length +
    16 * s.writer.objectsTable.length + (s.writer.buffers .objects).bytes.length +
    24 * s.writer.closuresTable.length + 16 * s.writer.contextsTable.length +
    (s.writer.buffers .contexts).bytes.length + 16 * s.repossessions.length := by
  rw [image, length_append, length_flatten, lengths_segments, length_headerBytes]
  simp only [sum_cons, sum_nil, Header.fields, length_cons, length_nil]
  omega

/-- Where a segment begins. -/
def segmentStart (held : Nat → Int × Int) (s : Serialized) (j : Nat) : Nat :=
  64 + (((s.segments held).map length).take j).sum

theorem image_split {j : Nat} {segment : List UInt8} (at_j : (s.segments held)[j]? = some segment) :
    ∃ before after, s.image held = before ++ (segment ++ after) ∧
      before.length = s.segmentStart held j := by
  refine ⟨headerBytes s.header.fields ++ ((s.segments held).take j).flatten,
    ((s.segments held).drop (j + 1)).flatten, ?_, ?_⟩
  · rcases List.getElem?_eq_some_iff.mp at_j with ⟨bound, rfl⟩
    rw [append_assoc, ← flatten_cons, ← drop_eq_getElem_cons bound, ← flatten_append,
      take_append_drop, image]
  · rw [length_append, length_flatten, length_headerBytes, map_take, segmentStart]
    rfl

theorem readsTable_of_segment (j : Nat) {table num entrySize : Int}
    (at_j : (s.segments held)[j]? = some (tableBytes rows))
    (uniform : ∀ row ∈ rows, row.length = width) (start : table = s.segmentStart held j)
    (size : entrySize = 4 * width) (count : num = rows.length) :
    ReadsTable (s.image held) table num entrySize rows := by
  rcases image_split at_j with ⟨before, after, split, place⟩
  exact readsTable_of_append uniform split (by rw [start, place]) size count

theorem readsData_of_segment (j : Nat) {bytes : List UInt8} {start stop : Int}
    (at_j : (s.segments held)[j]? = some bytes) (begins : start = s.segmentStart held j)
    (ends : stop = s.segmentStart held (j + 1)) :
    ReadsData (s.image held) start stop bytes := by
  rcases image_split at_j with ⟨before, after, split, place⟩
  refine readsData_of_append split (by rw [begins, place]) ?_
  rw [ends, begins, segmentStart, segmentStart, take_add_one, getElem?_map, at_j]
  simp [Int.add_assoc]

/-- The header of parts of the given sizes. -/
def fieldsOf (d t td o od c x xd r : Nat) : List Nat :=
  [1, 64, d, 64 + d * 8, t, 64 + d * 8 + t * 8, 64 + d * 8 + t * 8 + td, o,
    64 + d * 8 + t * 8 + td + o * 16, 64 + d * 8 + t * 8 + td + o * 16 + od, c,
    64 + d * 8 + t * 8 + td + o * 16 + od + c * 24, x,
    64 + d * 8 + t * 8 + td + o * 16 + od + c * 24 + x * 16,
    64 + d * 8 + t * 8 + td + o * 16 + od + c * 24 + x * 16 + xd, r]

theorem fieldsOf_lt {d t td o od c x xd r : Nat}
    (small : 64 + 8 * d + 8 * t + td + 16 * o + od + 24 * c + 16 * x + xd + 16 * r < 2147483648) :
    ∀ n ∈ fieldsOf d t td o od c x xd r, n < 2147483648 := by
  simp only [fieldsOf, forall_mem_cons, not_mem_nil, false_implies, implies_true, and_true]
  omega

/-- In less than two gigabytes no sum overflows. -/
theorem fields_of_written (written : concatenateOutputs s.writer s.repossessions = .ok s.header)
    (small : (s.image held).length < 2147483648) :
    s.header.fields = (fieldsOf s.writer.dependenciesTable.length s.writer.stablesTable.length
      (s.writer.buffers .stables).bytes.length s.writer.objectsTable.length
      (s.writer.buffers .objects).bytes.length s.writer.closuresTable.length
      s.writer.contextsTable.length (s.writer.buffers .contexts).bytes.length
      s.repossessions.length).map fun n : Nat => (n : Int) := by
  rw [length_image] at small
  simp (disch := omega) only [concatenateOutputs, outputSize, plus4_eq, tableSize_eq] at written
  rw [if_neg (by simp), Except.ok.injEq] at written
  rw [← written]
  simp [Header.fields, fieldsOf]

theorem int32At_image {fields : List Nat} {k n : Nat}
    (written : s.header.fields = fields.map fun n : Nat => (n : Int))
    (small : ∀ n ∈ fields, n < 2147483648) (at_k : fields[k]? = some n) :
    int32At (s.image held) (4 * k) = n := by
  have value : s.header.fields[k]? = some (n : Int) := by
    rw [written, getElem?_map, at_k, Option.map_some]
  have read := int32At_headerBytes [] (s.segments held).flatten value
  rw [int4_eq (small n (mem_of_getElem? at_k)), length_nil, Nat.zero_add] at read
  exact read

theorem disect_of_fields {data : List UInt8} {d t td o od c x xd r : Nat}
    (length : data.length =
      64 + 8 * d + 8 * t + td + 16 * o + od + 24 * c + 16 * x + xd + 16 * r)
    (small : data.length < 2147483648)
    (reads : ∀ {k n : Nat}, (fieldsOf d t td o od c x xd r)[k]? = some n →
      int32At data (4 * k) = n) :
    checkAndDisectInput (some data) = .ok (rootOf data) := by
  have times {num : Nat} {entrySize : Int} (positive : 0 ≤ entrySize)
      (fits : num * entrySize < 2147483648) : mulInt32 num entrySize = num * entrySize :=
    mulInt32_of_fits (Int.mul_nonneg (Int.natCast_nonneg _) positive) fits
  refine checkAndDisectInput_eq_ok_iff.mpr ⟨@reads 0 _ rfl, ?_, ?_, rfl⟩
  · rw [headerSize]
    omega
  simp only [parts, checkParts_cons_iff, Part.position, Part.provEnd, Part.num, Nat.reduceAdd,
    headerSize,
    show int32At data 4 = _ from @reads 1 _ rfl, show int32At data 8 = _ from @reads 2 _ rfl,
    show int32At data 12 = _ from @reads 3 _ rfl, show int32At data 16 = _ from @reads 4 _ rfl,
    show int32At data 20 = _ from @reads 5 _ rfl, show int32At data 24 = _ from @reads 6 _ rfl,
    show int32At data 28 = _ from @reads 7 _ rfl, show int32At data 32 = _ from @reads 8 _ rfl,
    show int32At data 36 = _ from @reads 9 _ rfl, show int32At data 40 = _ from @reads 10 _ rfl,
    show int32At data 44 = _ from @reads 11 _ rfl, show int32At data 48 = _ from @reads 12 _ rfl,
    show int32At data 52 = _ from @reads 13 _ rfl, show int32At data 56 = _ from @reads 14 _ rfl,
    show int32At data 60 = _ from @reads 15 _ rfl]
  rw [length] at small ⊢
  simp (disch := omega) only [times, depTableEntrySize, stablesTableEntrySize,
    objectsTableEntrySize, closuresTableEntrySize, contextsTableEntrySize, reposTableEntrySize,
    checkParts, and_true]
  omega

theorem image_readBack (written : concatenateOutputs s.writer s.repossessions = .ok s.header)
    (small : (s.image held).length < 2147483648) :
    checkAndDisectInput (some (s.image held)) = .ok (rootOf (s.image held)) ∧
      s.ReadBack held (s.image held) (rootOf (s.image held)) := by
  have length := @length_image held s
  have reads {k n : Nat} := @int32At_image held s _ k n (fields_of_written written small)
    (fieldsOf_lt (length ▸ small))
  refine ⟨disect_of_fields length small reads, ?_⟩
  -- The fields of the header that say where the segments begin.
  have begins {j k : Nat} (at_j : [1, 3, 5, 6, 8, 9, 11, 13, 14][j]? = some k) :
      int32At (s.image held) (4 * k) = s.segmentStart held j := by
    rw [segmentStart, lengths_segments]
    rcases j with _ | _ | _ | _ | _ | _ | _ | _ | _ | j <;> cases at_j <;>
      exact (reads rfl).trans (by simp [Nat.mul_comm, Nat.add_assoc])
  constructor
  case dependencies =>
    exact readsTable_of_segment 0 rfl (uniform_map 2 DependencyRow.fields _ fun _ => rfl)
      (@begins 0 _ rfl) rfl ((@reads 2 _ rfl).trans (by rw [length_map]))
  case stables =>
    exact readsTable_of_segment 1 rfl (uniform_map 2 StableRow.fields _ fun _ => rfl)
      (@begins 1 _ rfl) rfl ((@reads 4 _ rfl).trans (by rw [length_map]))
  case stablesData =>
    exact readsData_of_segment 2 rfl (@begins 2 _ rfl) (@begins 3 _ rfl)
  case objects =>
    exact readsTable_of_segment 3 rfl (uniform_map 4 ObjectRow.fields _ fun _ => rfl)
      (@begins 3 _ rfl) rfl ((@reads 7 _ rfl).trans (by rw [length_map]))
  case objectsData =>
    exact readsData_of_segment 4 rfl (@begins 4 _ rfl) (@begins 5 _ rfl)
  case closures =>
    exact readsTable_of_segment 5 rfl closureFields_uniform (@begins 5 _ rfl) rfl
      ((@reads 10 _ rfl).trans (by rw [length_closureFields]))
  case contexts =>
    exact readsTable_of_segment 6 rfl (uniform_map 4 ContextRow.fields _ fun _ => rfl)
      (@begins 6 _ rfl) rfl ((@reads 12 _ rfl).trans (by rw [length_map]))
  case contextsData =>
    exact readsData_of_segment 7 rfl (@begins 7 _ rfl) (@begins 8 _ rfl)
  case repossessions =>
    exact readsTable_of_segment 8 rfl (uniform_map 4 RepossessionRow.fields _ fun _ => rfl)
      (@begins 8 _ rfl) rfl ((@reads 15 _ rfl).trans (by rw [length_map]))

end Serialized

variable {world : World} {roots : Roots} {rounds : Nat} {s : Serialized}

theorem written_of_serialize (run : serialize world roots rounds = .ok (some s)) :
    concatenateOutputs s.writer s.repossessions = .ok s.header := by
  rw [serialize, Except.bind_eq_ok_iff] at run
  rcases run with ⟨_ | work, _, run⟩
  · cases run
  simp only [Except.bind_eq_ok_iff] at run
  rcases run with ⟨_, _, header, written, ⟨⟩⟩
  exact written

/-- What is handed out is accepted, and the reader finds every table and segment in it. -/
theorem serialize_readBack (run : serialize world roots rounds = .ok (some s))
    (held : Nat → Int × Int) (small : (s.image held).length < 2147483648) (block : Nat → UInt8) :
    base64Decode block (base64Encode (s.image held)) = .bytes (s.image held) ∧
      checkAndDisectInput (some (s.image held)) = .ok (rootOf (s.image held)) ∧
        s.ReadBack held (s.image held) (rootOf (s.image held)) := by
  refine ⟨?_, Serialized.image_readBack (written_of_serialize run) small⟩
  have length := length_base64Encode (s.image held)
  have nonempty : s.image held ≠ [] := by
    refine ne_nil_of_length_pos ?_
    rw [Serialized.length_image]
    omega
  rw [base64Decode, if_neg (by omega)]
  exact decodeLoop_base64Encode block [] none _ (.inr nonempty)

theorem oneSerialized_small : oneSerialized.map (fun s => decide
    ((s.image fun _ => (0, 0)).length < 2147483648)) = some true := by
  decide +kernel

/-- One object and its STable. -/
theorem serialize_readBack_one : ∃ s, serialize bareWorld oneObject 7 = .ok (some s) ∧
    base64Decode (fun _ => 0) (base64Encode (s.image fun _ => (0, 0))) =
      .bytes (s.image fun _ => (0, 0)) ∧
    checkAndDisectInput (some (s.image fun _ => (0, 0))) =
      .ok (rootOf (s.image fun _ => (0, 0))) ∧
    s.ReadBack (fun _ => (0, 0)) (s.image fun _ => (0, 0)) (rootOf (s.image fun _ => (0, 0))) := by
  have small := oneSerialized_small
  rw [oneSerialized] at small
  cases run : serialize bareWorld oneObject 7 with
  | error failure => simp [run] at small
  | ok finished =>
    cases finished with
    | none => simp [run] at small
    | some s =>
      simp only [run, Option.map_some, Option.some.injEq, decide_eq_true_eq] at small
      exact ⟨s, rfl, serialize_readBack run _ small _⟩

end RakudoStar.Serialization
