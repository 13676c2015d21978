import RakudoStar.Foundation.Except
import RakudoStar.Serialization.Writer

/-!
# The storage of the writer

Every table and data segment is allocated with a first size, checked before something is
written, and doubled once where it is too small. An operation is one call that writes to them.
-/

namespace RakudoStar.Serialization.Storage

open Function RakudoStar.Except

inductive Fault where
  /-- `mem_sys_allocate` and `mem_sys_realloc` end the program. -/
  | panic
  | pastBuffer
  deriving DecidableEq

inductive Table where
  | dependencies
  | stables
  | objects
  | closures
  | contexts
  deriving DecidableEq

inductive Place where
  | table (table : Table)
  | data (segment : DataSegment)
  deriving DecidableEq

/-- For each buffer the size of what is written so far, and the size allocated. -/
structure Buffers where
  offset : Place → Int
  alloc : Place → Int
  current : DataSegment

/-- What `malloc` and `realloc` answer, by the state in which they are asked for a size. -/
abbrev Allocator := Buffers → Int → Bool

/-- `mem_sys_allocate` and `mem_sys_realloc` -/
def memSysAllocate (grants : Allocator) (s : Buffers) (size : Int) : Except Fault Unit :=
  if size = 0 then .error .panic
  else if grants s size then .ok () else .error .panic

/-- The buffer is doubled if the sum of the offset and the size needed is beyond its size. -/
def grow (grants : Allocator) (s : Buffers) (place : Place) (sum : Int) : Except Fault Buffers :=
  if sum > s.alloc place then do
    let alloc := int4 (s.alloc place * 2)
    memSysAllocate grants s alloc
    .ok { s with alloc := update s.alloc place alloc }
  else .ok s

/-- The bytes are in the buffer. -/
def write (s : Buffers) (place : Place) (offset size : Int) : Except Fault Unit :=
  if offset + size ≤ s.alloc place then .ok () else .error .pastBuffer

def advance (s : Buffers) (place : Place) (size : Int) : Buffers :=
  { s with offset := update s.offset place (s.offset place + size) }

def Table.entrySize : Table → Int
  | .dependencies | .stables => 8
  | .objects | .contexts => 16
  | .closures => 24

/-- Ensures space in a table. In `get_sc_id` the sum is an `INTVAL`, elsewhere a `Parrot_Int4`. -/
def ensureRow (grants : Allocator) (s : Buffers) (table : Table) : Except Fault Buffers :=
  let sum := s.offset (.table table) + table.entrySize
  grow grants s (.table table) (match table with | .dependencies => sum | _ => int4 sum)

/-- `get_sc_id`, for a context that is a new dependency or not. -/
def getScId (grants : Allocator) (isNew : Bool) (s : Buffers) : Except Fault Buffers :=
  if isNew then do
    let offset := s.offset (.table .dependencies)
    let s ← ensureRow grants s .dependencies
    write s (.table .dependencies) offset 4
    write s (.table .dependencies) (offset + 4) 4
    .ok (advance s (.table .dependencies) 8)
  else .ok s

/-- The space for the row is ensured before its contexts are looked up. -/
def serializeClosure (grants : Allocator) (isNew : Bool) (codeObject : Option Bool) (s : Buffers) :
    Except Fault Buffers := do
  let offset := s.offset (.table .closures)
  let s ← ensureRow grants s .closures
  let s ← getScId grants isNew s
  write s (.table .closures) offset 12
  write s (.table .closures) (offset + 12) 4
  match codeObject with
  | none => .ok (advance s (.table .closures) 24)
  | some isNew =>
    let s ← getScId grants isNew s
    write s (.table .closures) (offset + 16) 8
    .ok (advance s (.table .closures) 24)

/-- A row written at once: those of `serialize_stable`, `serialize_object` and
`serialize_context`. -/
def writeRow (grants : Allocator) (table : Table) (s : Buffers) : Except Fault Buffers := do
  let offset := s.offset (.table table)
  let s ← ensureRow grants s table
  write s (.table table) offset table.entrySize
  .ok (advance s (.table table) table.entrySize)

def expandStorageIfNeeded (grants : Allocator) (s : Buffers) (need : Int) : Except Fault Buffers :=
  grow grants s (.data s.current) (s.offset (.data s.current) + need)

/-- `write_int64`, `write_int32` or `write_int16` at the current offset. -/
def writeCurrent (size : Int) (s : Buffers) : Except Fault Buffers := do
  write s (.data s.current) (s.offset (.data s.current)) size
  .ok (advance s (.data s.current) size)

/-- An integer, a float, an index of a string, a count or a discriminator. -/
def writeNumber (grants : Allocator) (size : Int) (s : Buffers) : Except Fault Buffers := do
  let s ← expandStorageIfNeeded grants s size
  writeCurrent size s

/-- A reference to an object, an STable or a code object. -/
def writeReference (grants : Allocator) (isNew : Bool) (s : Buffers) : Except Fault Buffers := do
  let s ← getScId grants isNew s
  let s ← expandStorageIfNeeded grants s 8
  let s ← writeCurrent 4 s
  writeCurrent 4 s

inductive Operation where
  | stable
  | object (isNew : Bool)
  | context (isNew : Bool)
  | closure (isNew : Bool) (codeObject : Option Bool)
  | int
  | num
  | str
  | count
  | discriminator
  | reference (isNew : Bool)

def perform (grants : Allocator) (s : Buffers) : Operation → Except Fault Buffers
  | .stable => do
    let s ← writeRow grants .stables s
    .ok { s with current := .stables }
  | .object isNew => do
    let s ← getScId grants isNew s
    let s ← writeRow grants .objects s
    .ok { s with current := .objects }
  | .context isNew => do
    let s ← getScId grants isNew s
    let s ← writeRow grants .contexts s
    .ok { s with current := .contexts }
  | .closure isNew codeObject => serializeClosure grants isNew codeObject s
  | .int | .num => writeNumber grants 8 s
  | .str | .count => writeNumber grants 4 s
  | .discriminator => writeNumber grants 2 s
  | .reference isNew => writeReference grants isNew s

def run (grants : Allocator) (s : Buffers) : List Operation → Except Fault Buffers
  | [] => .ok s
  | operation :: operations => do
    let s ← perform grants s operation
    run grants s operations

/-- The sizes that `Serialization_serialize` allocates, for a context of `scElems` objects. -/
def firstAlloc (scElems : Int) : Place → Int
  | .table .dependencies => 8 * 4
  | .table .stables => 8 * 16
  | .table .objects => int4 (16 * max scElems 1)
  | .table .closures => 24 * 16
  | .table .contexts => 16 * 4
  | .data .stables => 4096
  | .data .objects => int4 (8 * max scElems 1)
  | .data .contexts => 1024

def start (scElems : Int) : Buffers := ⟨fun _ => 0, firstAlloc scElems, .stables⟩

def places : List Place :=
  [.table .dependencies, .table .stables, .table .objects, .data .stables, .data .objects,
    .table .closures, .table .contexts, .data .contexts]

def allocateAll (grants : Allocator) (s : Buffers) : List Place → Except Fault Unit
  | [] => .ok ()
  | place :: rest => do
    memSysAllocate grants s (s.alloc place)
    allocateAll grants s rest

/-- The allocations, then the operations. -/
def serialize (grants : Allocator) (scElems : Int) (operations : List Operation) :
    Except Fault Buffers := do
  allocateAll grants (start scElems) places
  run grants (start scElems) operations

/-- The largest item that is written there. -/
def Place.itemSize : Place → Int
  | .table t => t.entrySize
  | .data _ => 8

theorem Place.itemSize_pos (place : Place) : 0 < place.itemSize := by
  cases place with
  | data => exact show (0 : Int) < 8 by decide
  | table t => cases t <;> decide

/-- It holds an item, and a sum overflows only at the largest multiple of 16. -/
structure Sized (place : Place) (alloc : Int) : Prop where
  item : place.itemSize ≤ alloc
  small : alloc < 2147483648
  table : ∀ table, place = .table table → 16 ∣ alloc ∧ alloc ≠ 2147483632

structure Fits (s : Buffers) : Prop where
  nonneg : ∀ place, 0 ≤ s.offset place
  inside : ∀ place, s.offset place ≤ s.alloc place
  sized : ∀ place, Sized place (s.alloc place)

/-- A run ends in such a state, or the program has ended. -/
abbrev Safe (post : Buffers → Prop) : Except Fault Buffers → Prop := Ends (· = .panic) post

variable {grants : Allocator} {s : Buffers} {place : Place} {need offset size : Int} {table : Table}

theorem safe_of_write {post : Buffers → Prop} {next : Except Fault Buffers}
    (room : offset + size ≤ s.alloc place) (safe : Safe post next) :
    Safe post (write s place offset size >>= fun _ => next) := by
  rw [write, if_pos room]
  exact safe

theorem int4_of_small {value : Int} (low : 0 ≤ value) (high : value < 2147483648) :
    int4 value = value := by
  rw [int4, Int.bmod_def]
  split <;> omega

theorem Sized.doubled {alloc : Int} (sized : Sized place alloc) (positive : 0 < int4 (alloc * 2)) :
    int4 (alloc * 2) = alloc * 2 ∧ Sized place (alloc * 2) := by
  have atLeast := place.itemSize_pos
  have item := sized.item
  have small := sized.small
  have below : alloc * 2 < 2147483648 := by
    rw [int4, Int.bmod_def] at positive
    split at positive <;> omega
  refine ⟨int4_of_small (by omega) below, by omega, below, ?_⟩
  intro table isTable
  have aligned := (sized.table table isTable).1
  omega

/-- Only the size of this buffer changed. -/
def Reserved (s : Buffers) (place : Place) (need : Int) (s' : Buffers) : Prop :=
  ∃ alloc, s' = { s with alloc } ∧ Fits s' ∧ s.offset place + need ≤ alloc place ∧
    ∀ other ≠ place, alloc other = s.alloc other

theorem advance_offset : (advance s place size).offset place = s.offset place + size :=
  update_self ..

theorem advance_offset_of_ne {other : Place} (apart : other ≠ place) :
    (advance s place size).offset other = s.offset other := update_of_ne apart ..

theorem advance_fits (fits : Fits s) (nonneg : 0 ≤ size)
    (room : s.offset place + size ≤ s.alloc place) : Fits (advance s place size) where
  nonneg := (forall_update_iff s.offset fun _ offset => 0 ≤ offset).mpr
    ⟨Int.add_nonneg (fits.nonneg place) nonneg, fun other _ => fits.nonneg other⟩
  inside := (forall_update_iff s.offset fun place offset => offset ≤ s.alloc place).mpr
    ⟨room, fun other _ => fits.inside other⟩
  sized := fits.sized

theorem writeCurrent_eq
    (room : s.offset (.data s.current) + size ≤ s.alloc (.data s.current)) :
    writeCurrent size s = .ok (advance s (.data s.current) size) := by
  rw [writeCurrent, write, if_pos room]
  rfl

theorem Fits.switch (fits : Fits s) (segment : DataSegment) :
    Fits { s with current := segment } := ⟨fits.nonneg, fits.inside, fits.sized⟩

section

variable (refuses : ∀ s size, size < 0 → grants s size = false)

include refuses

theorem memSysAllocate_cases (size : Int) : memSysAllocate grants s size = .error .panic ∨
    memSysAllocate grants s size = .ok () ∧ 0 < size := by
  unfold memSysAllocate
  by_cases granted : grants s size = true
  · have nonneg : ¬ size < 0 := by
      intro negative
      rw [refuses s size negative] at granted
      cases granted
    by_cases zero : size = 0
    · exact .inl (if_pos zero)
    · exact .inr ⟨by rw [if_neg zero, if_pos granted], by omega⟩
  · rw [if_neg granted, ite_self]
    exact .inl rfl

theorem grow_safe (fits : Fits s) (item : need ≤ place.itemSize) :
    Safe (Reserved s place need) (grow grants s place (s.offset place + need)) := by
  have inside := fits.inside place
  have atLeast := (fits.sized place).item
  rw [grow]
  split
  · dsimp only
    rcases memSysAllocate_cases refuses (int4 (s.alloc place * 2)) with panics | ⟨ran, positive⟩
    · rw [panics]
      rfl
    obtain ⟨doubled, sized⟩ := (fits.sized place).doubled positive
    rw [ran, doubled]
    refine ⟨_, rfl, ⟨fits.nonneg, ?_, ?_⟩, ?_, fun other apart => update_of_ne apart ..⟩
    · exact (forall_update_iff s.alloc fun place alloc => s.offset place ≤ alloc).mpr
        ⟨by omega, fun other _ => fits.inside other⟩
    · exact (forall_update_iff s.alloc Sized).mpr ⟨sized, fun other _ => fits.sized other⟩
    rw [update_self]
    omega
  · exact ⟨s.alloc, rfl, fits, by omega, fun _ _ => rfl⟩

theorem ensureRow_safe (fits : Fits s) :
    Safe (Reserved s (.table table) table.entrySize) (ensureRow grants s table) := by
  have nonneg := fits.nonneg (.table table)
  have inside := fits.inside (.table table)
  have small := (fits.sized (.table table)).small
  obtain ⟨aligned, notLast⟩ := (fits.sized (.table table)).table table rfl
  have entry : 0 ≤ table.entrySize ∧ table.entrySize ≤ 24 := by cases table <;> decide
  have grown := grow_safe refuses fits (Int.le_refl (Place.itemSize (.table table)))
  unfold ensureRow
  split
  · exact grown
  dsimp only
  rw [int4_of_small (by omega) (by omega)]
  exact grown

/-- Only the table of the dependencies changed. -/
structure Named (s s' : Buffers) : Prop where
  fits : Fits s'
  offset : s'.offset (.table .closures) = s.offset (.table .closures)
  alloc : s'.alloc (.table .closures) = s.alloc (.table .closures)

theorem getScId_safe (fits : Fits s) (isNew : Bool) : Safe (Named s) (getScId grants isNew s) := by
  cases isNew with
  | false => exact ⟨fits, rfl, rfl⟩
  | true =>
    refine (ensureRow_safe refuses fits).bind ?_
    rintro _ ⟨alloc, rfl, fits, room, others⟩
    dsimp only [Table.entrySize] at room
    refine safe_of_write (Int.le_trans (by omega) room)
      (safe_of_write (Int.le_trans (by omega) room) ?_)
    have apart : Place.table .closures ≠ .table .dependencies := by decide
    exact ⟨advance_fits fits (by decide) room, advance_offset_of_ne apart, others _ apart⟩

theorem writeRow_safe (fits : Fits s) : Safe Fits (writeRow grants table s) := by
  refine (ensureRow_safe refuses fits).bind ?_
  rintro _ ⟨alloc, rfl, fits, room, -⟩
  exact safe_of_write room (advance_fits fits (by cases table <;> decide) room)

theorem serializeClosure_safe (fits : Fits s) (isNew : Bool) (codeObject : Option Bool) :
    Safe Fits (serializeClosure grants isNew codeObject s) := by
  refine (ensureRow_safe refuses fits).bind ?_
  rintro _ ⟨alloc, rfl, fits, room, -⟩
  refine (getScId_safe refuses fits isNew).bind fun s' named => ?_
  have room : s'.offset (.table .closures) + 24 ≤ s'.alloc (.table .closures) := by
    rw [named.offset, named.alloc]
    exact room
  have offset : s'.offset (.table .closures) = s.offset (.table .closures) := named.offset
  refine safe_of_write (by omega) (safe_of_write (by omega) ?_)
  cases codeObject with
  | none => exact advance_fits named.fits (by decide) room
  | some isNew =>
    refine (getScId_safe refuses named.fits isNew).bind fun last namedLast => ?_
    rw [← namedLast.offset, ← namedLast.alloc] at room
    rw [← namedLast.offset] at offset
    exact safe_of_write (by omega) (advance_fits namedLast.fits (by decide) room)

theorem writeNumber_safe (fits : Fits s) (nonneg : 0 ≤ size) (item : size ≤ 8) :
    Safe Fits (writeNumber grants size s) := by
  refine (@grow_safe grants s (.data s.current) size refuses fits item).bind ?_
  rintro _ ⟨alloc, rfl, fits, room, -⟩
  exact safe_of_write room (advance_fits fits nonneg room)

theorem writeReference_safe (fits : Fits s) (isNew : Bool) :
    Safe Fits (writeReference grants isNew s) := by
  refine (getScId_safe refuses fits isNew).bind fun s' named => ?_
  refine (@grow_safe grants s' (.data s'.current) 8 refuses named.fits (Int.le_refl 8)).bind ?_
  rintro _ ⟨alloc, rfl, fits, room, -⟩
  have first : s'.offset (.data s'.current) + 4 ≤ alloc (.data s'.current) := by omega
  have fits := advance_fits fits (by decide) first
  rw [writeCurrent_eq first, ok_bind]
  have second : (advance { s' with alloc } (.data s'.current) 4).offset (.data s'.current) + 4 ≤
      alloc (.data s'.current) := by
    rw [advance_offset]
    dsimp only
    omega
  rw [writeCurrent_eq second]
  exact advance_fits fits (by decide) second

/-- No operation writes behind the end of a buffer, and after it the next one has room again. -/
theorem perform_safe (fits : Fits s) (operation : Operation) :
    Safe Fits (perform grants s operation) := by
  cases operation with
  | stable => exact (writeRow_safe refuses fits).bind fun _ fits => fits.switch _
  | object isNew =>
    refine (getScId_safe refuses fits isNew).bind fun _ named => ?_
    exact (writeRow_safe refuses named.fits).bind fun _ fits => fits.switch _
  | context isNew =>
    refine (getScId_safe refuses fits isNew).bind fun _ named => ?_
    exact (writeRow_safe refuses named.fits).bind fun _ fits => fits.switch _
  | closure isNew codeObject => exact serializeClosure_safe refuses fits isNew codeObject
  | int | num => exact writeNumber_safe refuses fits (by decide) (by decide)
  | str | count => exact writeNumber_safe refuses fits (by decide) (by decide)
  | discriminator => exact writeNumber_safe refuses fits (by decide) (by decide)
  | reference isNew => exact writeReference_safe refuses fits isNew

theorem run_safe (fits : Fits s) (operations : List Operation) :
    Safe Fits (run grants s operations) := by
  induction operations generalizing s with
  | nil => exact fits
  | cons operation operations ih =>
    exact (perform_safe refuses fits operation).bind fun _ fits => ih fits

theorem allocateAll_cases (list : List Place) : allocateAll grants s list = .error .panic ∨
    allocateAll grants s list = .ok () ∧ ∀ place ∈ list, 0 < s.alloc place := by
  induction list with
  | nil => exact .inr ⟨rfl, nofun⟩
  | cons place rest ih =>
    rw [allocateAll]
    rcases memSysAllocate_cases refuses (s.alloc place) with panics | ⟨ran, positive⟩
    · exact .inl (by rw [panics]; rfl)
    · rw [ran]
      exact ih.imp_right fun all => ⟨all.1, List.forall_mem_cons.mpr ⟨positive, all.2⟩⟩

end

theorem start_fits {scElems : Int} (granted : ∀ place ∈ places, 0 < firstAlloc scElems place)
    (room : max scElems 1 % 536870912 ≠ 134217727) : Fits (start scElems) := by
  have positive := granted (.table .objects) (by decide)
  have positiveData := granted (.data .objects) (by decide)
  simp only [firstAlloc, int4, Int.bmod_def] at positive positiveData
  have sized : ∀ place, Sized place (firstAlloc scElems place) := by
    rintro (table | segment)
    · refine ⟨?_, ?_, fun _ _ => ?_⟩ <;> cases table <;>
        simp only [firstAlloc, Place.itemSize, Table.entrySize, int4, Int.bmod_def] <;> grind
    · refine ⟨?_, ?_, nofun⟩ <;> cases segment <;>
        simp only [firstAlloc, Place.itemSize, int4, Int.bmod_def] <;> grind
  refine ⟨fun _ => Int.le_refl 0, fun place => ?_, sized⟩
  exact Int.le_trans (Int.le_of_lt place.itemSize_pos) (sized place).item

theorem perform_object (unseen : int4 (s.offset (.table .objects) + 16) ≤
      s.alloc (.table .objects)) : perform grants s (.object false) =
    if s.offset (.table .objects) + 16 ≤ s.alloc (.table .objects) then
      .ok { advance s (.table .objects) 16 with current := .objects }
    else .error .pastBuffer := by
  have reserved : ensureRow grants s .objects = .ok s := if_neg (Int.not_lt.mpr unseen)
  have row : writeRow grants .objects s = if s.offset (.table .objects) + 16 ≤
      s.alloc (.table .objects) then .ok (advance s (.table .objects) 16)
      else .error .pastBuffer := by
    rw [writeRow, reserved, ok_bind, Table.entrySize, write]
    split <;> rfl
  change (writeRow grants .objects s >>= _) = _
  rw [row]
  split <;> rfl

/-- A negative sum behind the last row passes the check. -/
theorem run_objects_pastBuffer (rows : Nat)
    (alloc : s.alloc (.table .objects) = 2147483632)
    (offset : s.offset (.table .objects) + 16 * rows = 2147483632)
    (nonneg : 0 ≤ s.offset (.table .objects)) :
    run grants s (List.replicate (rows + 1) (.object false)) = .error .pastBuffer := by
  induction rows generalizing s with
  | zero =>
    have last : s.offset (.table .objects) = 2147483632 := by omega
    have unseen : int4 (2147483632 + 16) ≤ 2147483632 := by
      rw [int4]
      decide
    rw [List.replicate_succ, run, perform_object (by rw [last, alloc]; exact unseen), last, alloc]
    rfl
  | succ rows ih =>
    rw [List.replicate_succ, run, perform_object, if_pos (by omega), ok_bind]
    · have next : (advance s (.table .objects) 16).offset (.table .objects) =
          s.offset (.table .objects) + 16 := advance_offset
      apply ih <;> dsimp only <;> first | exact alloc | omega
    · rw [int4_of_small (by omega) (by omega)]
      omega

theorem serialize_objects {scElems : Int} (large : max scElems 1 % 536870912 = 134217727) :
    serialize (fun _ size => decide (0 < size)) scElems
      (List.replicate 134217728 (.object false)) = .error .pastBuffer := by
  have table : firstAlloc scElems (.table .objects) = 2147483632 := by
    simp only [firstAlloc, int4, Int.bmod_def]
    grind
  have data : firstAlloc scElems (.data .objects) = 1073741816 := by
    simp only [firstAlloc, int4, Int.bmod_def]
    grind
  have granted : allocateAll (fun _ size => decide (0 < size)) (start scElems) places = .ok () := by
    simp [places, allocateAll, memSysAllocate, start, table, data]
    simp [firstAlloc]
  rw [serialize, granted, ok_bind]
  exact run_objects_pastBuffer 134217727 table (by rw [start]; rfl) (Int.le_refl 0)

/-- The writer never writes behind the end of a table or a data segment, whatever it writes,
unless the objects table begins with a size so large that the sum for a further row is no
`Parrot_Int4`. -/
theorem never_pastBuffer_iff (scElems : Int) :
    (∀ grants : Allocator, (∀ s size, size < 0 → grants s size = false) →
      ∀ operations, serialize grants scElems operations ≠ .error .pastBuffer) ↔
    max scElems 1 % 536870912 ≠ 134217727 := by
  constructor
  · intro never large
    refine never (fun _ size => decide (0 < size)) (fun _ size negative => ?_) _
      (serialize_objects large)
    exact decide_eq_false (Int.not_lt.mpr (Int.le_of_lt negative))
  intro room grants refuses operations overflow
  have safe : Safe Fits (serialize grants scElems operations) := by
    rcases allocateAll_cases (s := start scElems) refuses places with panics | ⟨granted, sizes⟩
    · rw [serialize, panics]
      rfl
    · rw [serialize, granted]
      exact run_safe refuses (start_fits sizes room) operations
  rw [overflow] at safe
  cases safe

/-- A context of 134217727 objects that leads to another one. -/
theorem serialize_pastBuffer : serialize (fun _ size => decide (0 < size)) 134217727
    (List.replicate 134217728 (.object false)) = .error .pastBuffer :=
  serialize_objects (by decide)

end RakudoStar.Serialization.Storage
