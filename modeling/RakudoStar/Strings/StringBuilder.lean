import RakudoStar.Strings.Calls

/-!
# String builders

A builder owns the buffer of one header, which it rewrites, converts and moves.  `get_string`
clones it.
-/

namespace RakudoStar.Strings.StringBuilder

open Foundation
open StringHeap

def initialStringCapacity : Nat := 128

/-- `calculate_capacity`: twice the size, rounded up to 16. -/
def calculateCapacity (needed : Nat) : Nat := (needed * 2 + 15) / 16 * 16

def sizeofIntval : Nat := 8

section

variable (order : ByteOrder) (estimate : Nat → Nat) (allocator : Allocator)

def initInt (defaultEncoding : Encoding) (heap : StringHeap) (initialSize : Int) :
    StringHeap × Nat :=
  let size := if initialSize < initialStringCapacity then initialStringCapacity
    else initialSize.toNat
  newOver heap .none (allocate allocator heap size) 0 defaultEncoding 0

/-- The header of the buffer, replaced. -/
def setHeader (heap : StringHeap) (buffer : Nat) (s : StringHeader) : StringHeap :=
  { heap with strings := heap.strings.set buffer s }

/-- `Parrot_gc_reallocate_string_storage`: to new storage, with the bytes that are used. -/
def reallocateStorage (heap : StringHeap) (buffer size : Nat) : Except Fault StringHeap := do
  let s ← read heap.strings buffer
  if size ≤ (heap.bufferAt s.bufstart).length then .ok heap
  else do
    let memory ← writeAt (allocate allocator heap size) 0 (heap.view s).bytes
    .ok ⟨heap.buffers ++ [memory],
      heap.strings.set buffer { s with bufstart := heap.buffers.length, strstart := 0 }⟩

def setBuflen (heap : StringHeap) (buffer size : Nat) : Except Fault StringHeap := do
  let s ← read heap.strings buffer
  .ok { heap with buffers := heap.buffers.set s.bufstart ((heap.bufferAt s.bufstart).take size) }

/-- Storage that is reallocated, for twice the size, when it is too small. -/
def reserve (heap : StringHeap) (buffer totalSize : Nat) : Except Fault StringHeap := do
  let s ← read heap.strings buffer
  if (heap.bufferAt s.bufstart).length < totalSize then
    reallocateStorage allocator heap buffer (calculateCapacity totalSize)
  else .ok heap

/-- Bytes written into the buffer of a header, which is changed. -/
def rewrite (heap : StringHeap) (buffer position : Nat) (bytes : List UInt8)
    (change : StringHeader → StringHeader) : Except Fault StringHeap := do
  let s ← read heap.strings buffer
  let memory ← writeAt (heap.bufferAt s.bufstart) position bytes
  .ok ⟨heap.buffers.set s.bufstart memory, heap.strings.set buffer (change s)⟩

def convertEncoding (heap : StringHeap) (destEncoding : Encoding) (buffer sizeToAdd : Nat) :
    Except Fault StringHeap := do
  let (heap, newBuffer) ← convert order estimate allocator heap destEncoding buffer
  let t ← read heap.strings newBuffer
  let heap ← reserve allocator heap buffer (t.bufused + sizeToAdd)
  let s ← read heap.strings buffer
  rewrite heap buffer s.strstart (heap.view t).bytes fun s =>
    { s with bufused := t.bufused, encoding := t.encoding }

/-- The encodings of the buffer and of a pushed string, made the same. -/
def unifyEncodings (heap : StringHeap) (buffer string : Nat) : Except Fault (StringHeap × Nat) := do
  let s ← read heap.strings buffer
  let t ← read heap.strings string
  if s.bufused = 0 then .ok (setHeader heap buffer { s with encoding := t.encoding }, string)
  else
    match if s.encoding = t.encoding then some s.encoding else repCompatible s t with
    | some enc => .ok (setHeader heap buffer { s with encoding := enc }, string)
    | none => do
      let (heap, string) ← convertToUtf8 order estimate allocator heap string
      let t ← read heap.strings string
      let heap ←
        if s.encoding ≠ .utf8 then
          convertEncoding order estimate allocator heap .utf8 buffer t.bufused
        else .ok heap
      .ok (heap, string)

/-- The part of `push_string` that reallocates: the length is the size that was asked for. -/
def reserveExactly (heap : StringHeap) (buffer totalSize : Nat) : Except Fault StringHeap := do
  let s ← read heap.strings buffer
  if (heap.bufferAt s.bufstart).length < totalSize then do
    let heap ← reallocateStorage allocator heap buffer (calculateCapacity totalSize)
    setBuflen heap buffer (calculateCapacity totalSize)
  else .ok heap

/-- `push_string` of a string that is not `STRINGNULL`. -/
def pushString (heap : StringHeap) (buffer string : Nat) : Except Fault StringHeap := do
  let t ← read heap.strings string
  if t.strlen = 0 then .ok heap
  else do
    let (heap, string) ← unifyEncodings order estimate allocator heap buffer string
    let s ← read heap.strings buffer
    let t ← read heap.strings string
    let heap ← reserveExactly allocator heap buffer (s.bufused + t.bufused)
    rewrite heap buffer s.bufused (heap.view t).bytes fun s =>
      { s with bufused := s.bufused + t.bufused, strstart := 0, strlen := s.strlen + t.strlen,
               hashval := 0 }

/-- The part of `push_integer` that gives the buffer an encoding for the code point. -/
def prepareEncoding (heap : StringHeap) (buffer : Nat) (value : Int) : Except Fault StringHeap := do
  let s ← read heap.strings buffer
  if s.encoding ≠ .utf8 ∧ 0x7F < value then
    if s.strlen = 0 then .ok (setHeader heap buffer { s with encoding := .utf8 })
    else convertEncoding order estimate allocator heap .utf8 buffer sizeofIntval
  else .ok heap

/-- The part of `push_integer` before the code point is stored. -/
def prepareInteger (heap : StringHeap) (buffer : Nat) (value : Int) : Except Fault StringHeap := do
  let heap ← prepareEncoding order estimate allocator heap buffer value
  let s ← read heap.strings buffer
  reserve allocator heap buffer (s.bufused + sizeofIntval)

/-- The code point is stored behind the others. -/
def storeInteger (heap : StringHeap) (buffer : Nat) (value : Int) : Except Fault StringHeap := do
  let s ← read heap.strings buffer
  let memory := heap.bufferAt s.bufstart
  let codepoint := (value % 2 ^ 64).toNat
  let (stored, iter) ← iterSetAndAdvanceOf order s.encoding (memory.drop s.strstart)
    ⟨s.bufused, s.strlen⟩ codepoint
  .ok ⟨heap.buffers.set s.bufstart (memory.take s.strstart ++ stored),
    heap.strings.set buffer { s with strlen := iter.charpos, bufused := iter.bytepos }⟩

/-- `push_integer`, with the heap that it leaves also when the code point is refused. -/
def pushInteger (heap : StringHeap) (buffer : Nat) (value : Int) : StringHeap × Except Fault Unit :=
  match prepareInteger order estimate allocator heap buffer value with
  | .error fault => (heap, .error fault)
  | .ok heap =>
    match storeInteger order heap buffer value with
    | .error fault => (heap, .error fault)
    | .ok heap => (heap, .ok ())

def setStringNative (heap : StringHeap) (buffer string : Nat) : Except Fault StringHeap := do
  let t ← read heap.strings string
  let heap ← reallocateStorage allocator heap buffer (calculateCapacity t.bufused)
  rewrite heap buffer 0 (heap.view t).bytes fun s =>
    { s with bufused := t.bufused, strlen := t.strlen, encoding := t.encoding }

def getString (heap : StringHeap) (buffer : Nat) : Except Fault (StringHeap × Nat) :=
  strClone allocator heap buffer

/-- The calls; `none` is `STRINGNULL`, an integer is an `INTVAL`. -/
inductive Call where
  | pushString (s : Option Nat)
  | pushInteger (value : Int64)
  | setStringNative (s : Nat)
  | getString

/-- A call that answers nothing; what was changed before a failure is not seen any more. -/
def silent (heap : StringHeap) (result : Except Fault StringHeap) :
    StringHeap × Except Fault (Option Nat) :=
  match result with
  | .error fault => (heap, .error fault)
  | .ok heap => (heap, .ok none)

/-- What a call does to the heap, and what it answers. -/
def Call.run (heap : StringHeap) (buffer : Nat) : Call → StringHeap × Except Fault (Option Nat)
  | pushString none => (heap, .ok none)
  | pushString (some s) =>
    silent heap (StringBuilder.pushString order estimate allocator heap buffer s)
  | pushInteger value =>
    let (heap, result) := StringBuilder.pushInteger order estimate allocator heap buffer value.toInt
    (heap, result.map fun _ => none)
  | setStringNative s => silent heap (StringBuilder.setStringNative allocator heap buffer s)
  | getString =>
    match StringBuilder.getString allocator heap buffer with
    | .error fault => (heap, .error fault)
    | .ok (heap, s) => (heap, .ok (some s))

end

end RakudoStar.Strings.StringBuilder
