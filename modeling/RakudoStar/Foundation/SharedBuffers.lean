import Mathlib.Data.List.Basic
import Mathlib.Data.List.GetD
import Mathlib.Logic.Relation

/-!
# Windows on shared buffers

Sequences may share storage when at most one window on a buffer is growable and that one ends
last: extending it in place writes only cells that no window shows.
-/

namespace RakudoStar.Foundation

open List Nat

structure BufferWindow where
  buffer : Nat
  start : Nat
  used : Nat
  growable : Bool
  deriving DecidableEq, Repr

namespace BufferWindow

/-- The first cell behind a window. -/
def stop (w : BufferWindow) : Nat := w.start + w.used

/-- The same cells, without the right to grow. -/
def close (w : BufferWindow) : BufferWindow := { w with growable := false }

/-- The window and the cells behind it. -/
def extend (w : BufferWindow) (count : Nat) : BufferWindow := { w with used := w.used + count }

variable (w : BufferWindow) (count : Nat)

@[simp] theorem extend_buffer : (w.extend count).buffer = w.buffer := rfl
@[simp] theorem extend_stop : (w.extend count).stop = w.stop + count := (Nat.add_assoc _ _ _).symm

/-- Two windows show the same cells. -/
def SameCells (w v : BufferWindow) : Prop :=
  v.buffer = w.buffer ∧ v.start = w.start ∧ v.used = w.used

end BufferWindow

/-- Buffers and the windows on them, both in the order of their creation. -/
structure SharedBuffers (α : Type) where
  buffers : List (List α)
  windows : List BufferWindow

/-- Cells written over a part of a buffer. -/
def overwrite {α : Type} (memory : List α) (position : Nat) (cells : List α) : List α :=
  memory.take position ++ cells ++ memory.drop (position + cells.length)

theorem overwrite_take {α : Type} {memory : List α} {position : Nat} (cells : List α)
    (inside : position ≤ memory.length) {k : Nat} (before : k ≤ position) :
    (overwrite memory position cells).take k = memory.take k := by
  have enough : k ≤ (memory.take position).length := by
    rw [length_take, Nat.min_eq_left inside]
    exact before
  rw [overwrite, append_assoc, take_append_of_le_length enough, take_take, Nat.min_eq_left before]

theorem overwrite_length {α : Type} {memory : List α} {position : Nat} {cells : List α}
    (room : position + cells.length ≤ memory.length) :
    (overwrite memory position cells).length = memory.length := by
  rw [overwrite, length_append, length_append, length_take, length_drop,
    Nat.min_eq_left (le_of_add_right_le room), Nat.add_sub_cancel' room]

theorem overwrite_window {α : Type} {memory cells : List α} {start used : Nat}
    (room : start + used + cells.length ≤ memory.length) :
    ((overwrite memory (start + used) cells).drop start).take (used + cells.length) =
      (memory.drop start).take used ++ cells := by
  have before : start + used ≤ memory.length := le_of_add_right_le room
  have first : start ≤ (memory.take (start + used)).length := by
    rw [length_take, Nat.min_eq_left before]
    exact Nat.le_add_right _ _
  have shown : (memory.take (start + used)).drop start = (memory.drop start).take used := by
    rw [drop_take, Nat.add_sub_cancel_left]
  have size : ((memory.drop start).take used ++ cells).length = used + cells.length := by
    rw [length_append, length_take, length_drop, Nat.min_eq_left]
    exact Nat.le_sub_of_add_le' before
  rw [overwrite, append_assoc, drop_append_of_le_length first, shown,
    ← append_assoc, ← size, take_left]

namespace SharedBuffers

variable {α : Type}

def bufferAt (s : SharedBuffers α) (buffer : Nat) : List α := s.buffers.getD buffer []

/-- The cells that a window shows. -/
def view (s : SharedBuffers α) (w : BufferWindow) : List α :=
  ((s.bufferAt w.buffer).drop w.start).take w.used

/-- A window on a buffer of its own, on a part of another's, or one extended in place. -/
inductive Step : SharedBuffers α → SharedBuffers α → Prop
  | fresh {s : SharedBuffers α} {memory : List α} {w : BufferWindow}
      (new : w.buffer = s.buffers.length) (fits : w.stop ≤ memory.length) :
      Step s ⟨s.buffers ++ [memory], s.windows ++ [w]⟩
  | share {s : SharedBuffers α} {w v : BufferWindow} (source : w ∈ s.windows)
      (same : v.buffer = w.buffer) (inside : v.stop ≤ w.stop) (closed : v.growable = false) :
      Step s ⟨s.buffers, s.windows ++ [v]⟩
  | extend {s : SharedBuffers α} {i : Nat} {w : BufferWindow} {cells : List α}
      (owner : s.windows[i]? = some w) (growable : w.growable = true)
      (room : w.stop + cells.length ≤ (s.bufferAt w.buffer).length) :
      Step s ⟨s.buffers.set w.buffer (overwrite (s.bufferAt w.buffer) w.stop cells),
        s.windows.set i w.close ++ [w.extend cells.length]⟩

/-- Windows lie in their buffers, with at most one growable on each, which ends last. -/
structure Disciplined (s : SharedBuffers α) : Prop where
  allocated : ∀ w ∈ s.windows, w.buffer < s.buffers.length
  fits : ∀ w ∈ s.windows, w.stop ≤ (s.bufferAt w.buffer).length
  owner : ∀ {i j : Nat} {w v : BufferWindow}, s.windows[i]? = some w → s.windows[j]? = some v →
    i ≠ j → v.buffer = w.buffer → w.growable = true → v.growable = false ∧ v.stop ≤ w.stop

variable {s : SharedBuffers α} {w : BufferWindow} {memory : List α} {windows : List BufferWindow}
  {s' : SharedBuffers α} {buffer : Nat} {v : BufferWindow} {i : Nat} {buffers : List (List α)}

theorem bufferAt_append (old : buffer < s.buffers.length) :
    bufferAt ⟨s.buffers ++ [memory], windows⟩ buffer = s.bufferAt buffer := by
  rw [bufferAt, bufferAt, getD_append _ _ _ _ old]

theorem bufferAt_new : bufferAt ⟨s.buffers ++ [memory], windows⟩ s.buffers.length = memory := by
  rw [bufferAt, getD_append_right _ _ _ _ (Nat.le_refl _), Nat.sub_self]
  rfl

theorem bufferAt_set (old : buffer < s.buffers.length) :
    bufferAt ⟨s.buffers.set buffer memory, windows⟩ buffer = memory := by
  rw [bufferAt, getD_eq_getElem?_getD, getElem?_set_self old]
  rfl

theorem bufferAt_set_ne {other : Nat} (differ : other ≠ buffer) :
    bufferAt ⟨s.buffers.set buffer memory, windows⟩ other = s.bufferAt other := by
  rw [bufferAt, bufferAt, getD_eq_getElem?_getD, getD_eq_getElem?_getD, getElem?_set_ne differ.symm]

/-- A step leaves every cell up to the end of every window as it is. -/
theorem Step.unseen (step : Step s s') (disciplined : s.Disciplined) (member : w ∈ s.windows) :
    (s'.bufferAt w.buffer).take w.stop = (s.bufferAt w.buffer).take w.stop := by
  have old := disciplined.allocated w member
  cases step with
  | fresh new fits => rw [bufferAt_append old]
  | share source same inside closed => rfl
  | @extend i owner cells found growable room =>
    by_cases same : w.buffer = owner.buffer
    · have last : w.stop ≤ owner.stop := by
        obtain ⟨j, here⟩ := mem_iff_getElem?.mp member
        by_cases itself : i = j
        · subst itself
          rw [found] at here
          cases here
          exact Nat.le_refl _
        · exact (disciplined.owner found here itself same growable).2
      rw [same] at old ⊢
      rw [bufferAt_set old]
      exact overwrite_take cells (le_of_add_right_le room) last
    · rw [bufferAt_set_ne same]

theorem view_eq_drop_take (s : SharedBuffers α) (w : BufferWindow) :
    s.view w = ((s.bufferAt w.buffer).take w.stop).drop w.start := by
  rw [view, BufferWindow.stop, drop_take, Nat.add_sub_cancel_left]

theorem view_congr (same : w.SameCells v) : s.view v = s.view w := by
  obtain ⟨buffer, start, used⟩ := same
  rw [view, view, buffer, start, used]

/-- Every window is still there and shows the same cells. -/
def Keeps (s s' : SharedBuffers α) : Prop :=
  ∀ (i : Nat) (w : BufferWindow), s.windows[i]? = some w →
    ∃ v, s'.windows[i]? = some v ∧ w.SameCells v ∧ s'.view v = s.view w

theorem Keeps.refl (s : SharedBuffers α) : Keeps s s :=
  fun _ w found => ⟨w, found, ⟨rfl, rfl, rfl⟩, rfl⟩

theorem Keeps.trans {t u : SharedBuffers α} (first : Keeps s t) (second : Keeps t u) :
    Keeps s u := by
  intro i w found
  obtain ⟨v, foundMiddle, same, shown⟩ := first i w found
  obtain ⟨x, foundLast, sameLast, shownLast⟩ := second i v foundMiddle
  refine ⟨x, foundLast, ?_, shownLast.trans shown⟩
  exact ⟨sameLast.1.trans same.1, sameLast.2.1.trans same.2.1, sameLast.2.2.trans same.2.2⟩

theorem Step.keeps (step : Step s s') (disciplined : s.Disciplined) : Keeps s s' := by
  intro i w found
  have inside : i < s.windows.length := (List.getElem?_eq_some_iff.mp found).1
  have kept : ∃ v, s'.windows[i]? = some v ∧ w.SameCells v := by
    cases step with
    | fresh new fits | share source same inside' closed =>
      exact ⟨w, (getElem?_append_left inside).trans found, rfl, rfl, rfl⟩
    | @extend j owner cells ownerFound growable room =>
      have length : i < (s.windows.set j owner.close).length := by
        rw [length_set]
        exact inside
      by_cases same : j = i
      · subst same
        rw [ownerFound] at found
        cases found
        refine ⟨w.close, ?_, rfl, rfl, rfl⟩
        rw [getElem?_append_left length, getElem?_set_self inside]
      · refine ⟨w, ?_, rfl, rfl, rfl⟩
        rw [getElem?_append_left length, getElem?_set_ne same, found]
  obtain ⟨v, there, same⟩ := kept
  refine ⟨v, there, same, ?_⟩
  rw [view_congr same, view_eq_drop_take, view_eq_drop_take,
    step.unseen disciplined (mem_of_getElem? found)]

theorem getElem?_append_singleton (found : (windows ++ [v])[i]? = some w) :
    windows[i]? = some w ∨ i = windows.length ∧ w = v := by
  by_cases old : i < windows.length
  · rw [getElem?_append_left old] at found
    exact .inl found
  have last : i = windows.length := by
    have inside := (List.getElem?_eq_some_iff.mp found).1
    rw [length_append, length_singleton] at inside
    exact Nat.le_antisymm (le_of_lt_succ inside) (Nat.le_of_not_lt old)
  subst last
  rw [getElem?_append_right (Nat.le_refl _), Nat.sub_self] at found
  cases found
  exact .inr ⟨rfl, rfl⟩

theorem disciplined_fresh (disciplined : s.Disciplined) (new : w.buffer = s.buffers.length)
    (fits : w.stop ≤ memory.length) : Disciplined ⟨s.buffers ++ [memory], s.windows ++ [w]⟩ where
  allocated := by
    intro v member
    rw [length_append, length_singleton]
    cases mem_append.mp member with
    | inl old => exact lt_succ_of_lt (disciplined.allocated v old)
    | inr last =>
      rw [mem_singleton.mp last, new]
      exact lt_succ_self _
  fits := by
    intro v member
    cases mem_append.mp member with
    | inl old =>
      rw [bufferAt_append (disciplined.allocated v old)]
      exact disciplined.fits v old
    | inr last =>
      rw [mem_singleton.mp last, new, bufferAt_new]
      exact fits
  owner := by
    intro i j x y foundX foundY differ same growable
    -- no older window lies on the new buffer
    have apart : ∀ {k : Nat} {z : BufferWindow}, s.windows[k]? = some z → z.buffer ≠ w.buffer := by
      intro k z found
      rw [new]
      exact Nat.ne_of_lt (disciplined.allocated z (mem_of_getElem? found))
    rcases getElem?_append_singleton foundX with oldX | ⟨lastX, rfl⟩
    · rcases getElem?_append_singleton foundY with oldY | ⟨_, rfl⟩
      · exact disciplined.owner oldX oldY differ same growable
      · exact absurd same.symm (apart oldX)
    rcases getElem?_append_singleton foundY with oldY | ⟨lastY, _⟩
    · exact absurd same (apart oldY)
    · exact absurd (lastX.trans lastY.symm) differ

theorem disciplined_share (disciplined : s.Disciplined) (source : w ∈ s.windows)
    (same : v.buffer = w.buffer) (inside : v.stop ≤ w.stop) (closed : v.growable = false) :
    Disciplined ⟨s.buffers, s.windows ++ [v]⟩ where
  allocated := by
    intro x member
    cases mem_append.mp member with
    | inl old => exact disciplined.allocated x old
    | inr last =>
      rw [mem_singleton.mp last, same]
      exact disciplined.allocated w source
  fits := by
    intro x member
    cases mem_append.mp member with
    | inl old => exact disciplined.fits x old
    | inr last =>
      rw [mem_singleton.mp last, same]
      exact Nat.le_trans inside (disciplined.fits w source)
  owner := by
    intro i j x y foundX foundY differ sameXY growable
    rcases getElem?_append_singleton foundX with oldX | ⟨_, rfl⟩
    · rcases getElem?_append_singleton foundY with oldY | ⟨_, rfl⟩
      · exact disciplined.owner oldX oldY differ sameXY growable
      -- the new window ends no later than its source, which ends no later than the owner
      refine ⟨closed, Nat.le_trans inside ?_⟩
      obtain ⟨k, foundW⟩ := mem_iff_getElem?.mp source
      by_cases itself : i = k
      · subst itself
        rw [oldX] at foundW
        cases foundW
        exact Nat.le_refl _
      · exact (disciplined.owner oldX foundW itself (same.symm.trans sameXY) growable).2
    · rw [closed] at growable
      cases growable

theorem disciplined_extend (disciplined : s.Disciplined) {cells : List α}
    (found : s.windows[i]? = some w) (growable : w.growable = true)
    (room : w.stop + cells.length ≤ (s.bufferAt w.buffer).length) :
    Disciplined ⟨s.buffers.set w.buffer (overwrite (s.bufferAt w.buffer) w.stop cells),
      s.windows.set i w.close ++ [w.extend cells.length]⟩ := by
  have inside : i < s.windows.length := (List.getElem?_eq_some_iff.mp found).1
  have allocated := disciplined.allocated w (mem_of_getElem? found)
  have size : ∀ buffer : Nat, (bufferAt ⟨s.buffers.set w.buffer
      (overwrite (s.bufferAt w.buffer) w.stop cells),
      s.windows.set i w.close ++ [w.extend cells.length]⟩ buffer).length =
        (s.bufferAt buffer).length := by
    intro buffer
    by_cases same : buffer = w.buffer
    · rw [same, bufferAt_set allocated, overwrite_length room]
    · rw [bufferAt_set_ne same]
  -- what stands in an old place: the old window, closed if it was the extended one
  have older : ∀ {k : Nat} {x : BufferWindow}, (s.windows.set i w.close)[k]? = some x →
      (k = i ∧ x = w.close) ∨ (k ≠ i ∧ s.windows[k]? = some x) := by
    intro k x foundX
    by_cases itself : i = k
    · subst itself
      rw [getElem?_set_self inside] at foundX
      cases foundX
      exact .inl ⟨rfl, rfl⟩
    · rw [getElem?_set_ne itself] at foundX
      exact .inr ⟨Ne.symm itself, foundX⟩
  have place : ∀ {x : BufferWindow}, x ∈ s.windows.set i w.close ++ [w.extend cells.length] →
      x.buffer < s.buffers.length ∧ x.stop ≤ (s.bufferAt x.buffer).length := by
    intro x member
    cases mem_append.mp member with
    | inl old =>
      obtain ⟨k, foundX⟩ := mem_iff_getElem?.mp old
      rcases older foundX with ⟨_, rfl⟩ | ⟨_, foundOld⟩
      · exact ⟨allocated, disciplined.fits w (mem_of_getElem? found)⟩
      · have member := mem_of_getElem? foundOld
        exact ⟨disciplined.allocated x member, disciplined.fits x member⟩
    | inr last =>
      rw [mem_singleton.mp last, BufferWindow.extend_stop]
      exact ⟨allocated, room⟩
  constructor
  · intro x member
    rw [length_set]
    exact (place member).1
  · intro x member
    rw [size]
    exact (place member).2
  intro j k x y foundX foundY differ same growableX
  -- an old window on the buffer of the extended one is not growable
  rcases getElem?_append_singleton foundX with oldX | ⟨lastX, rfl⟩
  · rcases older oldX with ⟨_, rfl⟩ | ⟨notX, beforeX⟩
    · cases growableX
    rcases getElem?_append_singleton foundY with oldY | ⟨_, rfl⟩
    · rcases older oldY with ⟨_, rfl⟩ | ⟨_, beforeY⟩
      · have ends := disciplined.owner beforeX found notX same growableX
        exact ⟨rfl, ends.2⟩
      · exact disciplined.owner beforeX beforeY differ same growableX
    have closed := (disciplined.owner found beforeX notX.symm same.symm growable).1
    rw [closed] at growableX
    cases growableX
  rcases getElem?_append_singleton foundY with oldY | ⟨lastY, _⟩
  · rw [BufferWindow.extend_stop]
    rcases older oldY with ⟨_, rfl⟩ | ⟨notY, beforeY⟩
    · exact ⟨rfl, Nat.le_add_right _ _⟩
    · have ends := disciplined.owner found beforeY notY.symm same growable
      exact ⟨ends.1, Nat.le_trans ends.2 (Nat.le_add_right _ _)⟩
  · exact absurd (lastX.trans lastY.symm) differ

theorem Step.disciplined (step : Step s s') (before : s.Disciplined) : s'.Disciplined := by
  cases step with
  | fresh new fits => exact disciplined_fresh before new fits
  | share source same inside closed => exact disciplined_share before source same inside closed
  | extend owner growable room => exact disciplined_extend before owner growable room

/-- Over any number of steps, every window keeps showing what it showed. -/
theorem steps_keep (steps : Relation.ReflTransGen Step s s') (disciplined : s.Disciplined) :
    s'.Disciplined ∧ Keeps s s' := by
  induction steps with
  | refl => exact ⟨disciplined, Keeps.refl s⟩
  | tail _ step ih =>
    exact ⟨step.disciplined ih.1, ih.2.trans (step.keeps ih.1)⟩

/-- Over any number of steps, nothing is written before the end of a window. -/
theorem steps_unseen (steps : Relation.ReflTransGen Step s s') (disciplined : s.Disciplined)
    (found : s.windows[i]? = some w) :
    (s'.bufferAt w.buffer).take w.stop = (s.bufferAt w.buffer).take w.stop := by
  induction steps with
  | refl => rfl
  | tail before step ih =>
    obtain ⟨middle, keeps⟩ := steps_keep before disciplined
    obtain ⟨v, there, ⟨buffer, start, used⟩, _⟩ := keeps i w found
    have unseen := step.unseen middle (mem_of_getElem? there)
    rw [BufferWindow.stop, buffer, start, used] at unseen
    exact unseen.trans ih

theorem view_length (fits : w.stop ≤ (s.bufferAt w.buffer).length) :
    (s.view w).length = w.used := by
  rw [view, length_take, length_drop, Nat.min_eq_left]
  exact Nat.le_sub_of_add_le' fits

/-- No other window is on the buffer. -/
def Alone (s : SharedBuffers α) (i buffer : Nat) : Prop :=
  ∀ (j : Nat) (v : BufferWindow), j ≠ i → s.windows[j]? = some v → v.buffer ≠ buffer

/-- The buffers but for one that has been written or added. -/
structure Rewrites (s : SharedBuffers α) (buffer : Nat) (buffers : List (List α)) : Prop where
  longer : s.buffers.length ≤ buffers.length
  others : ∀ n, n < s.buffers.length → n ≠ buffer → buffers.getD n [] = s.bufferAt n

theorem rewrites_set (s : SharedBuffers α) (buffer : Nat) (memory : List α) :
    s.Rewrites buffer (s.buffers.set buffer memory) where
  longer := Nat.le_of_eq length_set.symm
  others n _ other := @bufferAt_set_ne α s memory [] buffer n other

theorem rewrites_append (s : SharedBuffers α) (memory : List α) :
    s.Rewrites s.buffers.length (s.buffers ++ [memory]) where
  longer := by
    rw [length_append]
    exact Nat.le_add_right _ _
  others n old _ := @bufferAt_append α s memory [] n old

theorem Disciplined.alone_new (disciplined : s.Disciplined) (i : Nat) :
    s.Alone i s.buffers.length := by
  intro j v _ found same
  have allocated := disciplined.allocated v (mem_of_getElem? found)
  rw [same] at allocated
  exact Nat.lt_irrefl _ allocated

theorem view_rewrite (rewrites : s.Rewrites buffer buffers)
    (allocated : v.buffer < s.buffers.length) (other : v.buffer ≠ buffer)
    (windows : List BufferWindow) : view ⟨buffers, windows⟩ v = s.view v := by
  rw [view, view, bufferAt, rewrites.others v.buffer allocated other]

/-- A window that is alone may be moved to a buffer of its own, which may be written. -/
theorem disciplined_rewrite (disciplined : s.Disciplined)
    (alone : s.Alone i w.buffer) (rewrites : s.Rewrites w.buffer buffers)
    (allocated : w.buffer < buffers.length) (fits : w.stop ≤ (buffers.getD w.buffer []).length) :
    Disciplined ⟨buffers, s.windows.set i w⟩ := by
  -- a window is the new one or one of the others
  have cases_ : ∀ {j : Nat} {v : BufferWindow}, (s.windows.set i w)[j]? = some v →
      j = i ∧ v = w ∨ j ≠ i ∧ s.windows[j]? = some v ∧ v.buffer ≠ w.buffer := by
    intro j v found
    by_cases itself : i = j
    · subst itself
      rw [getElem?_set] at found
      split at found
      · split at found
        · exact .inl ⟨rfl, (Option.some.inj found).symm⟩
        · cases found
      · rename_i impossible
        exact absurd rfl impossible
    · rw [getElem?_set_ne itself] at found
      exact .inr ⟨Ne.symm itself, found, alone j v (Ne.symm itself) found⟩
  have place : ∀ {v : BufferWindow}, v ∈ s.windows.set i w →
      v.buffer < buffers.length ∧ v.stop ≤ (buffers.getD v.buffer []).length := by
    intro v member
    obtain ⟨j, found⟩ := mem_iff_getElem?.mp member
    rcases cases_ found with ⟨-, rfl⟩ | ⟨-, old, other⟩
    · exact ⟨allocated, fits⟩
    have before := mem_of_getElem? old
    have inside := disciplined.allocated v before
    rw [rewrites.others v.buffer inside other]
    exact ⟨Nat.lt_of_lt_of_le inside rewrites.longer, disciplined.fits v before⟩
  constructor
  · exact fun v member => (place member).1
  · exact fun v member => (place member).2
  intro j k u v foundU foundV differ same growable
  rcases cases_ foundU with ⟨rfl, rfl⟩ | ⟨-, oldU, otherU⟩
  · rcases cases_ foundV with ⟨rfl, -⟩ | ⟨-, -, otherV⟩
    · exact absurd rfl differ
    · exact absurd same otherV
  rcases cases_ foundV with ⟨-, rfl⟩ | ⟨-, oldV, -⟩
  · exact absurd same.symm otherU
  · exact disciplined.owner oldU oldV differ same growable

end SharedBuffers

end RakudoStar.Foundation
