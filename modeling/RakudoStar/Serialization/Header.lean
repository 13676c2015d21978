import RakudoStar.Serialization.Reader
import RakudoStar.Foundation.Except
import RakudoStar.Foundation.Extents
import Mathlib.Algebra.Group.Int.Defs
import Mathlib.Algebra.Group.Nat.Defs

/-!
# Taking the input apart

`check_and_disect_input` finds the tables and the data through the header. A table's size is
computed in 32 bits; each position is compared with the end computed before it.
-/

namespace RakudoStar.Serialization

open Foundation

def currentVersion : Int := 1

def headerSize : Nat := 4 * 16

def depTableEntrySize : Int := 8

def stablesTableEntrySize : Int := 8

def objectsTableEntrySize : Int := 16

def closuresTableEntrySize : Int := 24

def contextsTableEntrySize : Int := 16

def reposTableEntrySize : Int := 16

@[irreducible]
def int32At (data : List UInt8) (offset : Nat) : Int :=
  signedOfBytes 4 ((data.drop offset).take 4)

/-- Multiplication of two 32-bit integers. -/
@[irreducible]
def mulInt32 (first second : Int) : Int :=
  (first * second).bmod (2 ^ 32)

/-- The positions and counts that the header names, and the reading limits for
the data segments. -/
structure Root where
  version : Int
  dependenciesTable : Int
  numDependencies : Int
  stablesTable : Int
  numStables : Int
  stablesData : Int
  objectsTable : Int
  numObjects : Int
  objectsData : Int
  closuresTable : Int
  numClosures : Int
  contextsTable : Int
  numContexts : Int
  contextsData : Int
  reposTable : Int
  numRepos : Int
  stablesDataEnd : Int
  objectsDataEnd : Int
  contextsDataEnd : Int
  deriving DecidableEq, Repr

/-- A table with rows of a size, or a data segment. -/
structure Part where
  field : Nat
  entrySize : Option Int
  startsBefore : String
  runsOver : String

/-- The parts, with the reports of their checks. -/
def parts : List Part :=
  [{ field := 4, entrySize := some depTableEntrySize
     startsBefore := "Corruption detected (dependencies table starts before header ends)"
     runsOver := "Corruption detected (dependencies table overruns end of data)" },
   { field := 12, entrySize := some stablesTableEntrySize
     startsBefore := "Corruption detected (STables table starts before dependencies table ends)"
     runsOver := "Corruption detected (STables table overruns end of data)" },
   { field := 20, entrySize := none
     startsBefore := "Corruption detected (STables data starts before STables table ends)"
     runsOver := "Corruption detected (STables data starts after end of data)" },
   { field := 24, entrySize := some objectsTableEntrySize
     startsBefore := "Corruption detected (objects table starts before STables data ends)"
     runsOver := "Corruption detected (objects table overruns end of data)" },
   { field := 32, entrySize := none
     startsBefore := "Corruption detected (objects data starts before objects table ends)"
     runsOver := "Corruption detected (objects data starts after end of data)" },
   { field := 36, entrySize := some closuresTableEntrySize
     startsBefore := "Corruption detected (Closures table starts before objects data ends)"
     runsOver := "Corruption detected (Closures table overruns end of data)" },
   { field := 44, entrySize := some contextsTableEntrySize
     startsBefore := "Corruption detected (contexts table starts before closures table ends)"
     runsOver := "Corruption detected (contexts table overruns end of data)" },
   { field := 52, entrySize := none
     startsBefore := "Corruption detected (contexts data starts before contexts table ends)"
     runsOver := "Corruption detected (contexts data starts after end of data)" },
   { field := 56, entrySize := some reposTableEntrySize
     startsBefore := "Corruption detected (repossessions table starts before contexts data ends)"
     runsOver := "Corruption detected (repossessions table overruns end of data)" }]

namespace Part

variable (data : List UInt8) (part : Part)

def position : Int := int32At data part.field

/-- The number of rows of a table. -/
def num : Int := int32At data (part.field + 4)

/-- What `prov_pos` becomes after a part. -/
def provEnd : Int :=
  match part.entrySize with
  | some entrySize => part.position data + mulInt32 (part.num data) entrySize
  | none => part.position data

end Part

/-- Throw a report unless a check passes. -/
def ensure (check : Prop) [Decidable check] (message : String) : Except ReadFault Unit :=
  if check then .ok () else .error (.exception message)

/-- Each part starts behind the end of the one before it, inside the data. -/
def checkParts (data : List UInt8) : List Part → Int → Except ReadFault Unit
  | [], _ => .ok ()
  | part :: rest, provPos => do
    ensure (¬part.position data < provPos) part.startsBefore
    ensure (¬part.provEnd data > data.length) part.runsOver
    checkParts data rest (part.provEnd data)

/-- What the reader takes from the header. -/
def rootOf (data : List UInt8) : Root where
  version := int32At data 0
  dependenciesTable := int32At data 4
  numDependencies := int32At data 8
  stablesTable := int32At data 12
  numStables := int32At data 16
  stablesData := int32At data 20
  objectsTable := int32At data 24
  numObjects := int32At data 28
  objectsData := int32At data 32
  closuresTable := int32At data 36
  numClosures := int32At data 40
  contextsTable := int32At data 44
  numContexts := int32At data 48
  contextsData := int32At data 52
  reposTable := int32At data 56
  numRepos := int32At data 60
  stablesDataEnd := int32At data 24
  objectsDataEnd := int32At data 36
  contextsDataEnd := int32At data 56

/-- `check_and_disect_input`, for what the base64 decoder made of the input. -/
def checkAndDisectInput : Option (List UInt8) → Except ReadFault Root
  | none => .error (.exception "Failed to decode base64-encoded serialization data")
  | some data => do
    ensure (¬data.length < 4) "Serialized data too short to read a version number (< 4 bytes)"
    ensure (int32At data 0 = currentVersion)
      s!"Unknown serialization format version {int32At data 0}"
    ensure (¬data.length < headerSize)
      s!"Serialized data shorter than header (< {headerSize} bytes)"
    checkParts data parts headerSize
    .ok (rootOf data)

theorem ensure_eq_ok_iff {check : Prop} [Decidable check] {message : String} {result : Unit} :
    ensure check message = .ok result ↔ check := by
  unfold ensure
  split
  case isTrue holds => simp [holds]
  case isFalse fails => simp [fails]

variable {data : List UInt8} {remaining : List Part} {provPos : Int}

theorem checkParts_cons_iff {part : Part} {rest : List Part} :
    checkParts data (part :: rest) provPos = .ok () ↔
      provPos ≤ part.position data ∧ part.provEnd data ≤ data.length ∧
        checkParts data rest (part.provEnd data) = .ok () := by
  simp only [checkParts, Except.bind_eq_ok_iff, ensure_eq_ok_iff, exists_const, not_lt, gt_iff_lt]

namespace Root

/-- A table of a number of rows. -/
def table (start num entrySize : Int) : Extent where
  start := start
  stop := start + num * entrySize

/-- The tables and the data segments, in the order of the header. -/
def extents (root : Root) : List Extent :=
  [table root.dependenciesTable root.numDependencies depTableEntrySize,
    table root.stablesTable root.numStables stablesTableEntrySize,
    ⟨root.stablesData, root.stablesDataEnd⟩,
    table root.objectsTable root.numObjects objectsTableEntrySize,
    ⟨root.objectsData, root.objectsDataEnd⟩,
    table root.closuresTable root.numClosures closuresTableEntrySize,
    table root.contextsTable root.numContexts contextsTableEntrySize,
    ⟨root.contextsData, root.contextsDataEnd⟩,
    table root.reposTable root.numRepos reposTableEntrySize]

def counts (root : Root) : List Int :=
  [root.numDependencies, root.numStables, root.numObjects, root.numClosures, root.numContexts,
    root.numRepos]

end Root

/-- The row count of a part is not negative, and the size fits 32 bits. -/
def Part.Fits (data : List UInt8) (part : Part) : Prop :=
  ∀ entrySize, part.entrySize = some entrySize →
    0 ≤ part.num data ∧ part.num data * entrySize < 2 ^ 31

theorem mulInt32_of_fits {num entrySize : Int} (positive : 0 ≤ num * entrySize)
    (fits : num * entrySize < 2 ^ 31) : mulInt32 num entrySize = num * entrySize := by
  unfold mulInt32
  apply Int.bmod_eq_of_le <;> omega

/-- The extent of a part, given the parts behind it: a data segment goes up to the
next part. -/
def Part.extent (data : List UInt8) (part : Part) (rest : List Part) : Extent where
  start := part.position data
  stop :=
    match part.entrySize with
    | some entrySize => part.position data + part.num data * entrySize
    | none =>
      match rest with
      | next :: _ => next.position data
      | [] => part.position data

theorem checkAndDisectInput_eq_ok_iff {root : Root} : checkAndDisectInput (some data) = .ok root ↔
      int32At data 0 = currentVersion ∧ headerSize ≤ data.length ∧
        checkParts data parts headerSize = .ok () ∧ root = rootOf data := by
  simp only [checkAndDisectInput, Except.bind_eq_ok_iff, ensure_eq_ok_iff, exists_const,
    Except.ok.injEq, not_lt]
  constructor
  · rintro ⟨_, version, header, _, checked, rfl⟩
    exact ⟨version, header, checked, rfl⟩
  · rintro ⟨version, header, checked, rfl⟩
    exact ⟨le_trans (by decide) header, version, header, (), checked, rfl⟩

def headerBytes (fields : List Int) : List UInt8 :=
  fields.flatMap (signedToBytes 4)

/-- No rows in any table, and nothing behind the header. -/
def emptyHeader : List UInt8 :=
  headerBytes [1, 64, 0, 64, 0, 64, 64, 0, 64, 64, 0, 64, 0, 64, 64, 0]

end RakudoStar.Serialization
