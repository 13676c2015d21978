import RakudoStar.Freeze.Numbering

/-!
# The size of an image

`ImageIOSize` walks as freezing does and counts as many bytes as are written.
-/

namespace RakudoStar.Freeze

open Packfile

variable {P : Type}

/-- The table that a size is computed for. -/
structure SizeTable (P : Type) where
  rlookupStr : Option PStr → Option Nat
  rlookupPmc : P → Option (Nat × P)

structure Sizer (P : Type) where
  size : Nat
  seen : List P
  todo : List P

section

variable [DecidableEq P] (w : World P) (table : Option (SizeTable P))

namespace Sizer

variable (z : Sizer P)

def pushInteger : Sizer P :=
  { z with size := z.size + wordsize }

def pushFloat : Sizer P :=
  { z with size := z.size + wordsize }

def pushString (value : Option PStr) : Sizer P :=
  let inline (z : Sizer P) : Sizer P := { z with size := z.size + sizeString value * wordsize }
  match table with
  | some table =>
    match table.rlookupStr value with
    | some _ => z.pushInteger
    | none => inline z.pushInteger
  | none => inline z

def pushPmc : Option P → Sizer P
  | none => z.pushInteger
  | some v =>
    if v ∈ z.seen then
      z.pushInteger
    else
      let z :=
        match table.bind fun table => table.rlookupPmc v with
        | some _ => z.pushInteger.pushInteger.pushInteger
        | none =>
          let z := z.pushInteger.pushInteger
          { z with todo := z.todo ++ [v] }
      { z with seen := z.seen ++ [v] }

def pushItem : Item P → Sizer P
  | .integer _ => z.pushInteger
  | .float _ => z.pushFloat
  | .string value => z.pushString table value
  | .pmc value => z.pushPmc table value

/-- `VTABLE_freeze` and `VTABLE_visit` of a PMC, and its metadata. -/
def sizeObject (current : P) : Sizer P :=
  ((w.obj current).items.foldl (pushItem table) z).pushPmc table (w.obj current).metadata

/-- The loop over the todo list, for a number of rounds. -/
def drain : Nat → Sizer P → Option (Sizer P)
  | rounds, z =>
    match z.todo with
    | [] => some z
    | current :: todo =>
      match rounds with
      | 0 => none
      | rounds + 1 => drain rounds (sizeObject w table { z with todo } current)

end Sizer

def freezeSize (root : Option P) : Option (Sizer P) :=
  let start : Sizer P :=
    { size := if table.isSome then 0 else headerLength, seen := [], todo := [] }
  Sizer.drain w table w.pmcs.length (start.pushPmc table root)

end

/-- The tables look up the same strings and PMCs. -/
def TablesAgree : Option (SizeTable P) → Option (FreezeTable P) → Prop
  | none, none => True
  | some sizes, some freezes =>
    sizes.rlookupStr = freezes.rlookupStr ∧
      ∀ v, (sizes.rlookupPmc v).isSome = (freezes.rlookupPmc v).isSome
  | _, _ => False

/-- The size is that of what was written, and the same PMCs have been seen. -/
structure Counts (z : Sizer P) (s : Freezer P) : Prop where
  size : z.size = s.image.length
  seen : z.seen = s.keys
  todo : z.todo = s.todo

section

variable {w : World P} {sizes : Option (SizeTable P)} {table : Option (FreezeTable P)}
  {z : Sizer P} {s : Freezer P}

theorem Counts.pushInteger (counts : Counts z s) (value : Word) :
    Counts z.pushInteger (s.pushInteger value) where
  size := by
    rw [Sizer.pushInteger, Freezer.pushInteger, List.length_append, length_storeOpcode, counts.size]
  seen := counts.seen
  todo := counts.todo

theorem Counts.inline (counts : Counts z s) (value : Option PStr) :
    Counts { z with size := z.size + sizeString value * wordsize }
      { s with image := s.image ++ storeString value } where
  size := by rw [List.length_append, length_storeString, counts.size]
  seen := counts.seen
  todo := counts.todo

theorem TablesAgree.rlookupPmc (agree : TablesAgree sizes table) (v : P) :
    (sizes.bind fun table => table.rlookupPmc v).isSome =
      (table.bind fun table => table.rlookupPmc v).isSome := by
  rcases sizes with _ | sizes <;> rcases table with _ | table
  · rfl
  · exact agree.elim
  · exact agree.elim
  · exact agree.2 v

theorem TablesAgree.isSome (agree : TablesAgree sizes table) : sizes.isSome = table.isSome := by
  rcases sizes with _ | sizes <;> rcases table with _ | table
  · rfl
  · exact agree.elim
  · exact agree.elim
  · rfl

theorem Counts.pushString (agree : TablesAgree sizes table) (counts : Counts z s)
    (value : Option PStr) : Counts (z.pushString sizes value) (s.pushString table value) := by
  rcases sizes with _ | sizes <;> rcases table with _ | table
  · exact counts.inline value
  · exact agree.elim
  · exact agree.elim
  rw [Sizer.pushString, Freezer.pushString]
  rw [agree.1]
  cases table.rlookupStr value with
  | none => exact (counts.pushInteger _).inline value
  | some idx => exact counts.pushInteger _

variable [DecidableEq P]

section
variable (agree : TablesAgree sizes table)
include agree

theorem Counts.pushPmc (counts : Counts z s) (numbered : s.Numbered table) (value : Option P) :
    Counts (z.pushPmc sizes value) (s.pushPmc w table value) := by
  cases value with
  | none => exact counts.pushInteger _
  | some v =>
    by_cases seen : v ∈ s.keys
    · have known : s.checkSeen v ≠ 0 := fun absent =>
        numbered.checkSeen_eq_zero_iff.mp absent seen
      rw [Sizer.pushPmc, Freezer.pushPmc, if_pos known, if_pos (by rwa [counts.seen])]
      exact counts.pushInteger _
    have unknown := numbered.checkSeen_eq_zero_iff.mpr seen
    rw [Sizer.pushPmc, Freezer.pushPmc, if_neg (not_not.mpr unknown),
      if_neg (by rwa [counts.seen]), Freezer.pushNew]
    have found := agree.rlookupPmc v
    -- both have found it in an earlier constant, or neither has
    cases sized : sizes.bind fun table => table.rlookupPmc v <;>
      cases frozen : table.bind fun table => table.rlookupPmc v <;>
      rw [sized, frozen] at found
    · constructor
      · simp [Sizer.pushInteger, Freezer.pushInteger, counts.size, add_assoc]
      · simp [Sizer.pushInteger, Freezer.pushInteger, Freezer.keys, counts.seen]
      · simp [Sizer.pushInteger, Freezer.pushInteger, counts.todo]
    · cases found
    · cases found
    constructor
    · simp [Sizer.pushInteger, Freezer.pushInteger, counts.size, add_assoc]
    · simp [Sizer.pushInteger, Freezer.pushInteger, Freezer.keys, counts.seen]
    · simp [Sizer.pushInteger, Freezer.pushInteger, counts.todo]

theorem Counts.pushItem (counts : Counts z s) (numbered : s.Numbered table) (item : Item P) :
    Counts (z.pushItem sizes item) (s.pushItem w table item) := by
  cases item with
  | integer value | float value => exact counts.pushInteger value
  | string value => exact counts.pushString agree value
  | pmc value => exact counts.pushPmc agree numbered value

theorem Counts.pushItems (counts : Counts z s) (numbered : s.Numbered table)
    (items : List (Item P)) :
    Counts (items.foldl (Sizer.pushItem sizes) z) (items.foldl (Freezer.pushItem w table) s) := by
  induction items generalizing z s with
  | nil => exact counts
  | cons item items ih =>
    have pushes := @Freezer.pushItem_pushes _ _ w table s numbered item
    exact ih (counts.pushItem agree numbered item) (pushes.numbered numbered)

theorem Counts.object (counts : Counts z s) (numbered : s.Numbered table) (current : P) :
    Counts (z.sizeObject w sizes current) (s.freezeObject w table current) := by
  have pushes := @Freezer.pushItems_pushes _ _ w table s numbered (w.obj current).items
  exact (counts.pushItems agree numbered _).pushPmc agree (pushes.numbered numbered) _

theorem Counts.drain (rounds : Nat) (counts : Counts z s) (numbered : s.Numbered table) :
    Option.Rel Counts (Sizer.drain w sizes rounds z) (Freezer.drain w table rounds s) := by
  induction rounds generalizing z s with
  | zero =>
    rw [Sizer.drain, Freezer.drain, counts.todo]
    cases s.todo with
    | nil => exact .some counts
    | cons current todo => exact .none
  | succ rounds ih =>
    rw [Sizer.drain, Freezer.drain, counts.todo]
    cases next : s.todo with
    | nil => exact .some counts
    | cons current todo =>
      have taken : Counts { z with todo } (s.take current todo) := ⟨counts.size, counts.seen, rfl⟩
      have pushes := @Freezer.freezeObject_pushes _ _ w table _ (numbered.take next) current
      exact ih (taken.object agree (numbered.take next) current)
        (pushes.numbered (numbered.take next))

end

theorem freezeSize_spec (header : Header) (agree : TablesAgree sizes table) (root : Option P) :
    Option.Rel Counts (freezeSize w sizes root) (freeze header w table root) := by
  have begins : Counts { size := if sizes.isSome then 0 else headerLength, seen := [], todo := [] }
      (start header table) := by
    refine ⟨?_, rfl, rfl⟩
    rw [agree.isSome, start]
    cases table with
    | none =>
      change headerLength = (header.bytes ++ header.slack).length
      rw [List.length_append, header.length_bytes, header.length_slack]
      rfl
    | some table => rfl
  have numbered := start_numbered header table
  have pushes := @Freezer.pushPmc_pushes _ _ w table _ numbered root
  exact (begins.pushPmc agree numbered root).drain agree w.pmcs.length (pushes.numbered numbered)

end

end RakudoStar.Freeze
