import Mathlib.Logic.Function.Basic

/-!
# The hash table and its storage

A table owns one block with its buckets and its index. A pointer is a block and a cell in it;
every allocation makes a new block, so a dangling pointer is recognisable. Reading through a
pointer outside the current block has no result (`none`).
-/

namespace RakudoStar.Parrot

inductive KeyType where
  | int
  | cstring
  | string
  | pmc
  | ptr
  | pmcPtr
  | stringEnc
  deriving DecidableEq, Repr

/-- The number the C enumeration gives the key type. -/
def KeyType.code : KeyType → Nat
  | .int => 0
  | .cstring => 1
  | .string => 2
  | .pmc => 3
  | .ptr => 4
  | .pmcPtr => 5
  | .stringEnc => 6

/-- `PARROT_DATA_TYPE`; `other` is any type that a hash gives no meaning to. -/
inductive EntryType where
  | undef
  | intval
  | floatval
  | string
  | pmc
  | ptr
  | other (code : Nat)
  deriving DecidableEq, Repr

def EntryType.code : EntryType → Nat
  | .undef => 0
  | .intval => 1
  | .floatval => 2
  | .string => 3
  | .pmc => 4
  | .ptr => 29
  | .other code => code

inductive ExceptionType where
  | invalidOperation
  | unimplemented
  | raised
  deriving DecidableEq, Repr

structure Exception where
  type : ExceptionType
  message : String
  deriving DecidableEq, Repr

/-- Hashing, comparing and converting the words (`void *`) a table stores. -/
structure Runtime (W : Type) where
  /-- `NULL`, which is also the integer 0. -/
  null : W
  pmcNull : W
  keyHash : KeyType → W → Nat
  /-- `STRING_equal`, the comparison of `hash_compare_string_enc`, `strcmp` and
  `VTABLE_is_equal`. -/
  keyEqual : KeyType → W → W → Bool
  encoding : W → Nat
  strBytes : W → List Nat
  strToInt : W → Except Exception W
  strFromInt : W → Except Exception W
  pmcGetInteger : W → Except Exception W
  pmcGetString : W → Except Exception W
  boxInteger : W → Except Exception W
  boxString : W → Except Exception W
  pmcClone : W → Except Exception W

/-- A pointer to a bucket: the cell of a memory block. -/
structure Pointer where
  block : Nat
  cell : Nat
  deriving DecidableEq, Repr

structure HashBucket (W : Type) where
  next : Option Pointer
  key : W
  value : W

structure Hash (W : Type) where
  /-- The memory block `buckets` and `index` point into. -/
  block : Nat
  /-- Whether `buckets` is not `NULL`. -/
  allocated : Bool
  buckets : Nat → HashBucket W
  index : Nat → Option Pointer
  freeList : Option Pointer
  entries : Nat
  mask : Nat
  keyType : KeyType
  entryType : EntryType

/-- Where a link is stored: `&hash->index[i]` or `&bucket->next`. -/
inductive Place where
  | slot (i : Nat)
  | next (cell : Nat)
  deriving DecidableEq, Repr

variable {W : Type}

namespace Hash

def nextOf (h : Hash W) (cell : Nat) : Option Pointer := (h.buckets cell).next

/-- A link to a cell of the current block. -/
def ref (h : Hash W) (cell : Nat) : Pointer := ⟨h.block, cell⟩

/-- The bucket a pointer leads to, when it lies in the current block. -/
def cell? (h : Hash W) (p : Pointer) : Option Nat :=
  if h.allocated ∧ p.block = h.block ∧ p.cell ≤ h.mask then some p.cell else none

/-- Reading `hash->index[i]`. -/
def slot? (h : Hash W) (i : Nat) : Option (Option Pointer) :=
  if h.allocated ∧ i ≤ h.mask then some (h.index i) else none

def readPlace (h : Hash W) : Place → Option Pointer
  | .slot i => h.index i
  | .next cell => h.nextOf cell

def setNext (h : Hash W) (cell : Nat) (link : Option Pointer) : Hash W :=
  { h with
    buckets := Function.update h.buckets cell
      { h.buckets cell with next := link } }

def setIndex (h : Hash W) (i : Nat) (link : Option Pointer) : Hash W :=
  { h with index := Function.update h.index i link }

def writePlace (h : Hash W) : Place → Option Pointer → Hash W
  | .slot i, link => h.setIndex i link
  | .next cell, link => h.setNext cell link

def setValue (h : Hash W) (cell : Nat) (value : W) : Hash W :=
  { h with
    buckets := Function.update h.buckets cell
      { h.buckets cell with value := value } }

/-- The key and value of a bucket. -/
def entry (h : Hash W) (cell : Nat) : W × W :=
  ((h.buckets cell).key, (h.buckets cell).value)

def size (h : Hash W) : Nat := h.entries

end Hash

def hashCreate (rt : Runtime W) (valType : EntryType) (keyType : KeyType) : Hash W where
  block := 0
  allocated := false
  buckets := fun _ => ⟨none, rt.null, rt.null⟩
  index := fun _ => none
  freeList := none
  entries := 0
  mask := 0
  keyType := keyType
  entryType := valType

/-- `while (size > new_size) new_size <<= 1;` -/
def doubleUntil (size : Nat) : Nat → Nat → Nat
  | 0, newSize => newSize
  | fuel + 1, newSize =>
    if size > newSize then doubleUntil size fuel (newSize * 2) else newSize

/-- Push the buckets below the given one on the free list, the highest first. -/
def pushFree : Nat → Hash W → Hash W
  | 0, h => h
  | cell + 1, h =>
    pushFree cell { h.setNext cell h.freeList with freeList := some (h.ref cell) }

/-- `allocate_buckets`; the free list is extended, not reset. -/
def allocateBuckets (rt : Runtime W) (h : Hash W) (size : Nat) : Hash W :=
  let newSize := doubleUntil size size 2
  pushFree newSize
    { h with
      block := h.block + 1
      allocated := true
      mask := newSize - 1
      buckets := fun _ => ⟨none, rt.null, rt.null⟩
      index := fun _ => none }

def hashCreateSized (rt : Runtime W) (valType : EntryType) (keyType : KeyType)
    (size : Nat) : Hash W :=
  allocateBuckets rt (hashCreate rt valType keyType) size

/-- `*index + offset`: only a pointer into the old block is moved to a bucket of
the new one. -/
def relocated? (oldBlock oldSize : Nat) (p : Pointer) : Option Nat :=
  if p.block = oldBlock ∧ p.cell < oldSize then some p.cell else none

/-- Move `cell` from the chain at `place` to the front of the slot `newLoc`. -/
def moveBucket (h : Hash W) (place : Place) (cell newLoc : Nat) : Hash W :=
  let unlinked := h.writePlace place (h.nextOf cell)
  let linked := unlinked.setNext cell (unlinked.index newLoc)
  linked.setIndex newLoc (some (h.ref cell))

/-- The inner loop of `expand_hash`, over the chain of the old slot `i`. -/
def relocateChain (rt : Runtime W) (oldBlock oldSize i : Nat) :
    Nat → Place → Hash W → Option (Hash W)
  | 0, _, _ => none
  | fuel + 1, place, h =>
    match h.readPlace place with
    | none => some h
    | some p => do
      let cell ← relocated? oldBlock oldSize p
      let newLoc := rt.keyHash h.keyType (h.buckets cell).key &&& h.mask
      if i ≠ newLoc then
        relocateChain rt oldBlock oldSize i fuel place (moveBucket h place cell newLoc)
      else
        relocateChain rt oldBlock oldSize i fuel (.next cell)
          (h.writePlace place (some (h.ref cell)))

/-- The outer loop of `expand_hash`, over the old slots. -/
def relocateSlots (rt : Runtime W) (oldBlock oldSize : Nat) : List Nat → Hash W → Option (Hash W)
  | [], h => some h
  | i :: slots, h => do
    let h ← relocateChain rt oldBlock oldSize i (oldSize + 1) (.slot i) h
    relocateSlots rt oldBlock oldSize slots h

/-- Link `count + 1` buckets from `cell` on in order. -/
def linkRun : Nat → Nat → Hash W → Hash W
  | 0, cell, h => h.setNext cell none
  | count + 1, cell, h => linkRun count (cell + 1) (h.setNext cell (some (h.ref (cell + 1))))

/-- The new upper half becomes the free list, its lowest bucket first. -/
def linkFree (oldSize : Nat) (h : Hash W) : Hash W :=
  { linkRun (oldSize - 1) oldSize h with freeList := some (h.ref oldSize) }

/-- Twice the size, the old buckets and index copied, the rest cleared. -/
def copyDoubled (rt : Runtime W) (h : Hash W) : Hash W :=
  let oldSize := h.mask + 1
  { h with
    block := h.block + 1
    buckets := fun cell =>
      if cell < oldSize then h.buckets cell else ⟨none, rt.null, rt.null⟩
    index := fun i => if i < oldSize then h.index i else none
    mask := oldSize * 2 - 1 }

def expandHash (rt : Runtime W) (h : Hash W) : Option (Hash W) :=
  if h.allocated then do
    let oldSize := h.mask + 1
    let moved ← relocateSlots rt h.block oldSize (List.range oldSize) (copyDoubled rt h)
    some (linkFree oldSize moved)
  else
    none

/-- `hash_compare`, true when the C function returns 0. -/
def hashCompare [DecidableEq W] (rt : Runtime W) (keyType : KeyType) (a b : W) : Bool :=
  if a = b then true
  else
    match keyType with
    | .string | .stringEnc | .cstring | .pmc => rt.keyEqual keyType a b
    | .int | .ptr | .pmcPtr => false

/-- The test that `parrot_hash_get_bucket_string` inlines. -/
def sameString [DecidableEq W] (rt : Runtime W) (hashval : Nat) (s s2 : W) : Bool :=
  if s = s2 then true
  else if hashval = rt.keyHash .string s2 then
    if rt.encoding s = rt.encoding s2 then decide (rt.strBytes s = rt.strBytes s2)
    else rt.keyEqual .string s s2
  else false

/-- Follow a chain to the first bucket whose key passes the test. -/
def findBucket (h : Hash W) (test : W → Bool) : Nat → Option Pointer → Option (Option Nat)
  | _, none => some none
  | 0, some _ => none
  | fuel + 1, some p => do
    let cell ← h.cell? p
    if test (h.buckets cell).key then some (some cell)
    else findBucket h test fuel (h.nextOf cell)

def hashGetBucketString [DecidableEq W] (rt : Runtime W) (h : Hash W) (s : W)
    (hashval : Nat) : Option (Option Nat) := do
  let bucket ← h.slot? (hashval &&& h.mask)
  findBucket h (sameString rt hashval s) (h.mask + 1) bucket

/-- The search loop of both functions, for keys that are not plain strings. -/
def hashSearch [DecidableEq W] (rt : Runtime W) (h : Hash W) (key : W) (hashval : Nat) :
    Option (Option Nat) := do
  let bucket ← h.slot? (hashval &&& h.mask)
  findBucket h (hashCompare rt h.keyType key) (h.mask + 1) bucket

/-- The search for a key: plain strings have a loop of their own. -/
def hashFind [DecidableEq W] (rt : Runtime W) (h : Hash W) (key : W) : Option (Option Nat) :=
  let hashval := rt.keyHash h.keyType key
  if h.keyType = .string then hashGetBucketString rt h key hashval
  else hashSearch rt h key hashval

def hashGetBucket [DecidableEq W] (rt : Runtime W) (h : Hash W) (key : W) : Option (Option Nat) :=
  if h.entries ≤ 0 then some none else hashFind rt h key

def hashGet [DecidableEq W] (rt : Runtime W) (h : Hash W) (key : W) : Option W :=
  if h.entries ≤ 0 then some rt.null
  else
    let search :=
      if h.keyType = .string then
        hashGetBucketString rt h key (rt.keyHash h.keyType key)
      else hashGetBucket rt h key
    search.map (fun
      | some cell => (h.buckets cell).value
      | none => rt.null)

def hashExists [DecidableEq W] (rt : Runtime W) (h : Hash W) (key : W) : Option Bool :=
  (hashGetBucket rt h key).map Option.isSome

/-- Move `cell`, which `p` points to, from the free list to the slot `loc`. -/
def takeBucket (h : Hash W) (p : Pointer) (cell loc : Nat) (key value : W) : Hash W :=
  { h with
    entries := h.entries + 1
    freeList := h.nextOf cell
    buckets := Function.update h.buckets cell ⟨h.index loc, key, value⟩
    index := Function.update h.index loc (some p) }

/-- A table with a free bucket: it is expanded when it has none. -/
def ensureFree (rt : Runtime W) (h : Hash W) : Option (Hash W) :=
  if h.freeList.isNone then expandHash rt h else some h

def hashStoreValueInBucket (rt : Runtime W) (h : Hash W) (bucket : Option Nat)
    (hashval : Nat) (key value : W) : Option (Hash W) :=
  match bucket with
  | some cell => some (h.setValue cell value)
  | none => do
    let h ← ensureFree rt h
    let p ← h.freeList
    let cell ← h.cell? p
    some (takeBucket h p cell (hashval &&& h.mask) key value)

/-- `Parrot_hash_put`, with the bucket it returns (none for a new key). -/
def hashPut [DecidableEq W] (rt : Runtime W) (h : Hash W) (key value : W) :
    Option (Hash W × Option Nat) :=
  if h.allocated then do
    let bucket ← hashFind rt h key
    let stored ← hashStoreValueInBucket rt h bucket (rt.keyHash h.keyType key) key value
    some (stored, bucket)
  else do
    let h := allocateBuckets rt h 2
    let stored ← hashStoreValueInBucket rt h none (rt.keyHash h.keyType key) key value
    some (stored, none)

/-- Take the bucket `cell` out of the chain at `place` and put it on the free
list. -/
def freeBucket (rt : Runtime W) (h : Hash W) (place : Place) (cell : Nat) : Hash W :=
  let unlinked := h.writePlace place (h.nextOf cell)
  { unlinked with
    entries := h.entries - 1
    buckets := Function.update unlinked.buckets cell
      { unlinked.buckets cell with next := h.freeList, key := rt.null }
    freeList := some (h.ref cell) }

/-- The loop of `Parrot_hash_delete` over the links of a chain. -/
def deleteLoop [DecidableEq W] (rt : Runtime W) (h : Hash W) (key : W) :
    Nat → Place → Option (Hash W)
  | 0, _ => none
  | fuel + 1, prev =>
    match h.readPlace prev with
    | none => some h
    | some p => do
      let current ← h.cell? p
      if hashCompare rt h.keyType key (h.buckets current).key then
        some (freeBucket rt h prev current)
      else deleteLoop rt h key fuel (.next current)

def hashDelete [DecidableEq W] (rt : Runtime W) (h : Hash W) (key : W) : Option (Hash W) :=
  if h.allocated then
    deleteLoop rt h key (h.mask + 2) (.slot (rt.keyHash h.keyType key &&& h.mask))
  else some h

/-- `parrot_hash_iterate_linear`: the cells for which the body runs. -/
def iterateLinear [DecidableEq W] (rt : Runtime W) (h : Hash W) :
    Nat → Nat → Nat → Option (List Nat)
  | fuel, cell, found =>
    if found < h.entries then
      match fuel with
      | 0 => none
      | fuel + 1 =>
        if h.allocated ∧ cell ≤ h.mask then
          if (h.buckets cell).key = rt.null then
            iterateLinear rt h fuel (cell + 1) found
          else do
            let rest ← iterateLinear rt h fuel (cell + 1) (found + 1)
            some (cell :: rest)
        else none
    else some []

/-- The cells of a chain, in order. -/
def walkChain (h : Hash W) : Nat → Option Pointer → Option (List Nat)
  | _, none => some []
  | 0, some _ => none
  | fuel + 1, some p => do
    let cell ← h.cell? p
    let rest ← walkChain h fuel (h.nextOf cell)
    some (cell :: rest)

def walkSlots (h : Hash W) : List Nat → Option (List Nat)
  | [] => some []
  | i :: slots => do
    let bucket ← h.slot? i
    let chain ← walkChain h (h.mask + 1) bucket
    let rest ← walkSlots h slots
    some (chain ++ rest)

def iterateIndexed (h : Hash W) : Option (List Nat) :=
  if h.entries = 0 then some []
  else walkSlots h (List.range (h.mask + 1))

/-- Whether `parrot_hash_iterate` walks the index for this key type. -/
def KeyType.indexed : KeyType → Bool
  | .int | .cstring | .ptr => true
  | .string | .pmc | .pmcPtr | .stringEnc => false

def hashIterate [DecidableEq W] (rt : Runtime W) (h : Hash W) : Option (List Nat) :=
  if h.keyType.indexed then iterateIndexed h
  else iterateLinear rt h (h.mask + 1) 0 0

def unsupportedKeyType : Exception := ⟨.unimplemented, "Hash: unsupported key_type"⟩

def unsupportedEntryType : Exception := ⟨.unimplemented, "Hash: unsupported entry_type"⟩

def hashKeyToInt (rt : Runtime W) (source : KeyType) (key : W) : Except Exception W :=
  match source with
  | .int => .ok key
  | .pmc | .pmcPtr => rt.pmcGetInteger key
  | .string | .stringEnc => rt.strToInt key
  | .cstring | .ptr => .error unsupportedKeyType

def hashKeyToString (rt : Runtime W) (source : KeyType) (key : W) : Except Exception W :=
  match source with
  | .int => rt.strFromInt key
  | .pmc | .pmcPtr => rt.pmcGetString key
  | .string | .stringEnc => .ok key
  | .cstring | .ptr => .error unsupportedKeyType

def hashKeyToPmc (rt : Runtime W) (source : KeyType) (key : W) : Except Exception W :=
  match source with
  | .int => rt.boxInteger key
  | .pmc | .pmcPtr => .ok key
  | .string | .stringEnc => rt.boxString key
  | .cstring | .ptr => .error unsupportedKeyType

def hashValueToInt (rt : Runtime W) (source : EntryType) (value : W) : Except Exception W :=
  match source with
  | .ptr | .intval => .ok value
  | .string => rt.strToInt value
  | .pmc => rt.pmcGetInteger value
  | .undef | .floatval | .other _ => .error unsupportedEntryType

def hashValueToString (rt : Runtime W) (source : EntryType) (value : W) : Except Exception W :=
  match source with
  | .intval => rt.strFromInt value
  | .string => .ok value
  | .pmc => rt.pmcGetString value
  | .undef | .floatval | .ptr | .other _ => .error unsupportedEntryType

def hashValueToPmc (rt : Runtime W) (source : EntryType) (value : W) : Except Exception W :=
  match source with
  | .intval => rt.boxInteger value
  | .string => rt.boxString value
  | .pmc => .ok value
  | .undef | .floatval | .ptr | .other _ => .error unsupportedEntryType

/-- The key conversion in the loop of `Parrot_hash_update`. -/
def convertKey (rt : Runtime W) (target source : KeyType) (key : W) : Except Exception W :=
  if target = source then .ok key
  else
    match target with
    | .int => hashKeyToInt rt source key
    | .string | .stringEnc => hashKeyToString rt source key
    | .pmc | .pmcPtr => hashKeyToPmc rt source key
    | .cstring | .ptr =>
      let code := target.code
      .error ⟨.invalidOperation, s!"unimplemented key type {code}"⟩

/-- The value conversion in the loop of `Parrot_hash_update`. -/
def convertValue (rt : Runtime W) (target source : EntryType) (value : W) : Except Exception W :=
  if target = source then .ok value
  else
    match target with
    | .intval => hashValueToInt rt source value
    | .string => hashValueToString rt source value
    | .pmc => hashValueToPmc rt source value
    | .undef | .floatval | .ptr | .other _ =>
      let code := target.code
      .error ⟨.invalidOperation, s!"unimplemented value type {code}"⟩

/-- Store each entry, until a conversion throws; earlier ones stay. -/
def putAll [DecidableEq W] (rt : Runtime W) (convert : W → W → Except Exception (W × W)) :
    Hash W → List (W × W) → Option (Hash W × Except Exception Unit)
  | h, [] => some (h, .ok ())
  | h, (key, value) :: rest =>
    match convert key value with
    | .error e => some (h, .error e)
    | .ok converted => do
      let stored ← hashPut rt h converted.1 converted.2
      putAll rt convert stored.1 rest

structure TableType where
  keyType : KeyType
  entryType : EntryType
  deriving DecidableEq, Repr

def Hash.type (h : Hash W) : TableType := ⟨h.keyType, h.entryType⟩

def convertEntry (rt : Runtime W) (target source : TableType) (key value : W) :
    Except Exception (W × W) := do
  let key ← convertKey rt target.keyType source.keyType key
  let value ← convertValue rt target.entryType source.entryType value
  .ok (key, value)

def hashUpdate [DecidableEq W] (rt : Runtime W) (h other : Hash W) :
    Option (Hash W × Except Exception Unit) :=
  if other.entries ≤ 0 then some (h, .ok ())
  else do
    let cells ← hashIterate rt other
    if h.keyType = other.keyType ∧ h.entryType = other.entryType then
      -- presizing frees the old block but leaves the free list alone
      let h := if h.entries ≤ 0 then allocateBuckets rt h other.mask else h
      putAll rt (fun key value => .ok (key, value)) h (cells.map other.entry)
    else
      putAll rt (convertEntry rt h.type other.type) h (cells.map other.entry)

/-- The value `Parrot_hash_clone_prunable` stores for a value of the source. -/
def cloneValue [DecidableEq W] (rt : Runtime W) (entryType : EntryType) (deep : Bool)
    (value : W) : Except Exception W :=
  match entryType with
  | .string => .ok value
  | .pmc =>
    if value = rt.null ∨ value = rt.pmcNull then .ok rt.pmcNull
    else if deep then rt.pmcClone value
    else .ok value
  | .undef | .ptr | .intval => .ok value
  | .floatval | .other _ =>
    let code := entryType.code
    .error ⟨.invalidOperation, s!"hash corruption: type = {code}\n"⟩

def cloneAll [DecidableEq W] (rt : Runtime W) (entryType : EntryType) (deep : Bool) :
    Hash W → List (W × W) → Option (Hash W × Except Exception Unit)
  | dest, [] => some (dest, .ok ())
  | dest, (key, value) :: rest =>
    match cloneValue rt entryType deep value with
    | .error e => some (dest, .error e)
    | .ok cloned =>
      if key = rt.null then cloneAll rt entryType deep dest rest
      else do
        let stored ← hashStoreValueInBucket rt dest none
          (rt.keyHash dest.keyType key) key cloned
        cloneAll rt entryType deep stored rest

/-- `Parrot_hash_clone_prunable`; `Parrot_hash_clone` is the deep case. -/
def hashClonePrunable [DecidableEq W] (rt : Runtime W) (h dest : Hash W) (deep : Bool) :
    Option (Hash W × Except Exception Unit) := do
  let cells ← hashIterate rt h
  cloneAll rt h.entryType deep (allocateBuckets rt dest h.mask) (cells.map h.entry)

end RakudoStar.Parrot
