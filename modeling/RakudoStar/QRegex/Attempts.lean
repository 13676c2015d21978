import RakudoStar.QRegex.Capnames
import Mathlib.Logic.Relation
import Mathlib.Data.List.Induction

/-!
# The capture stack under backtracking

A frame of the backtracking stack holds the height of the capture stack, which is cut to that of
the frame below the one taken. After going back into a subrule the cursor of its last attempt is
still there.
-/

namespace RakudoStar.QRegex

/-- What a frame jumps to: a mark, or the label in front of `!cursor_next`. -/
inductive Label where
  | zero
  | mark (label : Nat)
  | back (name : Option Name)
  deriving DecidableEq, Repr

/-- A frame; `path` is not in the code, but the captures of the path to which it goes
back. -/
structure Frame (M : Type) where
  label : Label
  pos : Int
  rep : Int
  caps : Nat
  path : List (Capture M)

/-- The stacks of a cursor; `path` and `retry` are not in the code. -/
structure Stacks (M : Type) where
  bstack : List (Frame M)
  cstack : List (Capture M)
  path : List (Capture M)
  retry : Option (Option Name)

variable {M : Type}

/-- The height in the top frame. -/
def topCaps : List (Frame M) → Nat
  | [] => 0
  | frame :: _ => frame.caps

namespace Stacks

def start : Stacks M := { bstack := [], cstack := [], path := [], retry := none }

def rxmark (cur : Stacks M) (label : Nat) (pos rep : Int) : Stacks M :=
  { cur with bstack := ⟨.mark label, pos, rep, topCaps cur.bstack, cur.path⟩ :: cur.bstack }

/-- The frames of `nqp_nfa_run_alternation`. -/
def runAlternation (cur : Stacks M) (pos : Int) : List Nat → Stacks M
  | [] => cur
  | label :: labels =>
    runAlternation
      { cur with bstack := ⟨.mark label, pos, 0, cur.cstack.length, cur.path⟩ :: cur.bstack }
      pos labels

def cursorCapture (cur : Stacks M) (pos : Int) (capture : Capture M) : Stacks M :=
  { cur with
    bstack := ⟨.zero, pos, 0, cur.cstack.length + 1, cur.path⟩ :: cur.bstack
    cstack := cur.cstack ++ [capture]
    path := cur.path ++ [capture] }

/-- A subrule that can be gone back into: `!cursor_capture` or `!cursor_push_cstack`, and its
frame. -/
def subrule (cur : Stacks M) (pos : Int) (name : Option Name) (sub : M) : Stacks M :=
  let capture : Capture M := ⟨name, sub⟩
  let pushed :=
    match name with
    | some _ => cur.cursorCapture pos capture
    | none =>
      { cur with cstack := cur.cstack ++ [capture], path := cur.path ++ [capture] }
  { pushed with
    bstack := ⟨.back name, 0, pos, pushed.cstack.length, cur.path⟩ :: pushed.bstack
    retry := none }

/-- The frames under a mark. -/
def dropThrough (label : Nat) : List (Frame M) → List (Frame M)
  | [] => []
  | frame :: frames =>
    if frame.label = .mark label then frames else dropThrough label frames

/-- The frame of `nqp_rxcommit` that holds the captures. -/
def holdCaptures (caps : Nat) (path : List (Capture M)) : List (Frame M) → List (Frame M)
  | [] => [⟨.zero, -1, 0, caps, path⟩]
  | frame :: frames =>
    if frame.pos < 0 then { frame with caps } :: frames
    else ⟨.zero, -1, 0, caps, path⟩ :: frame :: frames

def rxcommit (cur : Stacks M) (label : Nat) : Stacks M :=
  let frames := dropThrough label cur.bstack
  { cur with
    bstack :=
      if 0 < topCaps cur.bstack then holdCaptures (topCaps cur.bstack) cur.path frames
      else frames }

/-- The code at the label `fail`: the frame that is taken, with the stacks. -/
def failTo : List (Frame M) → List (Capture M) → Option (Frame M × Stacks M)
  | [], _ => none
  | frame :: frames, cstack =>
    if frame.pos < -1 then none
    else if frame.pos < 0 then failTo frames cstack
    else
      match frame.label with
      | .zero => failTo frames cstack
      | .mark _ => some (frame, ⟨frames, cstack.take (topCaps frames), frame.path, none⟩)
      | .back name =>
        some (frame, ⟨frames, cstack.take (topCaps frames), frame.path, some name⟩)

end Stacks

/-- What a regex does with its stacks until it passes. -/
inductive Step : Stacks M → Stacks M → Prop
  | mark {cur} label pos rep : cur.retry = none → Step cur (cur.rxmark label pos rep)
  | alternation {cur} pos labels : cur.retry = none → Step cur (cur.runAlternation pos labels)
  | capture {cur} pos name sub : cur.retry = none →
      Step cur (cur.cursorCapture pos ⟨some name, sub⟩)
  | subrule {cur} pos name sub : cur.retry = none → Step cur (cur.subrule pos name sub)
  | retake {cur name} pos sub : cur.retry = some name → Step cur (cur.subrule pos name sub)
  | commit {cur} label : cur.retry = none → Step cur (cur.rxcommit label)
  | fail {cur frame after} : Stacks.failTo cur.bstack cur.cstack = some (frame, after) →
      Step cur after

/-- The stacks that a regex can have. -/
def Reachable (cur : Stacks M) : Prop := Relation.ReflTransGen Step .start cur

end RakudoStar.QRegex

namespace RakudoStar.QRegex

/-- A capture of the path, and the sub-matches of the attempts before it. -/
structure Attempts (M : Type) where
  stale : List M
  capture : Capture M

def cursors (name : Option Name) (subs : List M) : List (Capture M) :=
  subs.map fun sub => ⟨name, sub⟩

/-- What lies on the capture stack. -/
def Attempts.stack (attempts : Attempts M) : List (Capture M) :=
  cursors attempts.capture.name attempts.stale ++ [attempts.capture]

/-- A capture stack for a path, with cursors on top that are not on it. -/
def Stacked (cstack path : List (Capture M)) (name : Option Name) (stale : List M) : Prop :=
  ∃ attempts : List (Attempts M), path = attempts.map Attempts.capture ∧
    cstack = attempts.flatMap Attempts.stack ++ cursors name stale

theorem stacked_start : Stacked ([] : List (Capture M)) [] none [] := ⟨[], rfl, rfl⟩

variable {cur : Stacks M} {cstack : List (Capture M)} {frames : List (Frame M)}
  {frame : Frame M} {name : Option Name} {path : List (Capture M)} {after : Stacks M}

theorem Stacked.rename (stacked : Stacked cstack path name []) (other : Option Name) :
    Stacked cstack path other [] := stacked

theorem Stacked.capture {stale : List M} (stacked : Stacked cstack path name stale) (sub : M) :
    Stacked (cstack ++ [⟨name, sub⟩]) (path ++ [⟨name, sub⟩]) none [] := by
  rcases stacked with ⟨attempts, rfl, rfl⟩
  refine ⟨attempts ++ [⟨stale, ⟨name, sub⟩⟩], ?_, ?_⟩
  · rw [List.map_append]
    rfl
  · rw [List.flatMap_append, List.flatMap_singleton, List.append_assoc, List.append_assoc]
    exact congrArg (attempts.flatMap Attempts.stack ++ ·) (List.append_nil _).symm

theorem Stacked.stale {stale : List M} (stacked : Stacked cstack path name stale) (sub : M) :
    Stacked (cstack ++ [⟨name, sub⟩]) path name (stale ++ [sub]) := by
  rcases stacked with ⟨attempts, rfl, rfl⟩
  refine ⟨attempts, rfl, ?_⟩
  rw [cursors, cursors, List.map_append, List.append_assoc]
  rfl

/-- What a frame finds on the capture stack when it is taken. -/
def Restores (frame : Frame M) (cstack : List (Capture M)) : Prop :=
  0 ≤ frame.pos →
    match frame.label with
    | .zero => True
    | .mark _ => Stacked cstack frame.path none []
    | .back name => ∃ stale, Stacked cstack frame.path name stale

/-- The heights in the frames fit to the capture stack. -/
def Chain : List (Frame M) → List (Capture M) → Prop
  | [], _ => True
  | frame :: frames, cstack =>
    topCaps frames ≤ cstack.length ∧ Restores frame (cstack.take (topCaps frames)) ∧
      Chain frames (cstack.take (topCaps frames))

/-- The frames are those for a capture stack that may have grown since. -/
structure Fits (frames : List (Frame M)) (cstack : List (Capture M)) : Prop where
  height : topCaps frames ≤ cstack.length
  chain : Chain frames (cstack.take (topCaps frames))

theorem Chain.fits (chain : Chain (frame :: frames) cstack) :
    Fits frames cstack := ⟨chain.1, chain.2.2⟩

theorem Fits.append (fits : Fits frames cstack) (more : List (Capture M)) :
    Fits frames (cstack ++ more) := by
  refine ⟨?_, ?_⟩
  · rw [List.length_append]
    exact Nat.le_add_right_of_le fits.height
  · rw [List.take_append_of_le_length fits.height]
    exact fits.chain

theorem Fits.tail (fits : Fits (frame :: frames) cstack) : Fits frames cstack := by
  have below := fits.chain.fits.append (cstack.drop (topCaps (frame :: frames)))
  rw [List.take_append_drop] at below
  exact below

theorem Fits.restores (fits : Fits (frame :: frames) cstack) :
    Restores frame (cstack.take (topCaps frames)) := by
  rcases fits.chain with ⟨height, restores, _⟩
  rw [List.length_take_of_le fits.height] at height
  rw [List.take_take, Nat.min_eq_left height] at restores
  exact restores

theorem Fits.cons (fits : Fits frames cstack) (height : frame.caps = cstack.length)
    (restores : Restores frame (cstack.take (topCaps frames))) : Fits (frame :: frames) cstack := by
  have all : cstack.take (topCaps (frame :: frames)) = cstack := by
    rw [topCaps, height, List.take_length]
  exact ⟨Nat.le_of_eq height, all.symm ▸ ⟨fits.height, restores, fits.chain⟩⟩

theorem restores_of_neg (negative : frame.pos < 0) (cstack : List (Capture M)) :
    Restores frame cstack := fun reached => absurd reached (Int.not_le.mpr negative)

/-- The invariant of the stacks. -/
structure Sound (cur : Stacks M) : Prop where
  height : topCaps cur.bstack = cur.cstack.length
  fits : Fits cur.bstack cur.cstack
  stacked : ∃ stale, Stacked cur.cstack cur.path (cur.retry.getD none) stale ∧
    (cur.retry = none → stale = [])

theorem Sound.all (sound : Sound cur) : cur.cstack.take (topCaps cur.bstack) = cur.cstack := by
  rw [sound.height, List.take_length]

theorem sound_start : Sound (Stacks.start : Stacks M) :=
  ⟨rfl, ⟨Nat.le_refl 0, trivial⟩, [], stacked_start, fun _ => rfl⟩

theorem Sound.stacked_of_none (sound : Sound cur) (taken : cur.retry = none) :
    Stacked cur.cstack cur.path none [] := by
  rcases sound.stacked with ⟨stale, stacked, noStale⟩
  rw [noStale taken] at stacked
  exact stacked.rename none

theorem Sound.mark (sound : Sound cur) (taken : cur.retry = none) {caps : Nat}
    (height : caps = cur.cstack.length) (label : Nat) (pos rep : Int) :
    Sound { cur with bstack := ⟨.mark label, pos, rep, caps, cur.path⟩ :: cur.bstack } := by
  refine ⟨height, sound.fits.cons height fun _ => ?_, sound.stacked⟩
  rw [sound.all]
  exact sound.stacked_of_none taken

theorem sound_rxmark (sound : Sound cur) (taken : cur.retry = none) (label : Nat) (pos rep : Int) :
    Sound (cur.rxmark label pos rep) :=
  sound.mark taken sound.height label pos rep

theorem sound_runAlternation (sound : Sound cur) (taken : cur.retry = none) (pos : Int)
    (labels : List Nat) : Sound (cur.runAlternation pos labels) := by
  induction labels generalizing cur with
  | nil => exact sound
  | cons label labels ih =>
    exact ih (sound.mark taken rfl label pos 0) taken

/-- A capture of the subrule that is on, or of any when none is gone back into. -/
theorem Sound.push (sound : Sound cur) (fits : cur.retry = none ∨ cur.retry = some name) :
    ∃ stale, Stacked cur.cstack cur.path name stale := by
  rcases fits with taken | again
  · exact ⟨[], (sound.stacked_of_none taken).rename name⟩
  rcases sound.stacked with ⟨stale, stacked, _⟩
  rw [again] at stacked
  exact ⟨stale, stacked⟩

theorem length_pushed (cstack : List (Capture M)) (capture : Capture M) :
    cstack.length + 1 = (cstack ++ [capture]).length := by
  rw [List.length_append]
  rfl

theorem Sound.captureFrame (sound : Sound cur) (pos : Int) (capture : Capture M) :
    Fits (cur.cursorCapture pos capture).bstack (cur.cstack ++ [capture]) :=
  (sound.fits.append [capture]).cons (length_pushed _ _) fun _ => trivial

theorem sound_cursorCapture (sound : Sound cur) (taken : cur.retry = none) (pos : Int)
    (name : Option Name) (sub : M) : Sound (cur.cursorCapture pos ⟨name, sub⟩) :=
  ⟨length_pushed _ _, sound.captureFrame pos _, [],
    (((sound.stacked_of_none taken).rename name).capture sub).rename _, fun _ => rfl⟩

theorem sound_subrule (sound : Sound cur) (pos : Int)
    (fits : cur.retry = none ∨ cur.retry = some name) (sub : M) :
    Sound (cur.subrule pos name sub) := by
  rcases sound.push fits with ⟨stale, stacked⟩
  cases name with
  | none =>
    refine ⟨rfl, (sound.fits.append _).cons rfl fun _ => ?_, [], stacked.capture sub, fun _ => rfl⟩
    rw [List.take_append_of_le_length sound.fits.height, sound.all]
    exact ⟨stale, stacked⟩
  | some name =>
    refine ⟨rfl, (sound.captureFrame pos ⟨some name, sub⟩).cons rfl fun _ => ?_, [],
      stacked.capture sub, fun _ => rfl⟩
    -- the frame under it holds the height with the cursor
    have all : (cur.cstack ++ [(⟨some name, sub⟩ : Capture M)]).take
        (cur.cstack.length + 1) = cur.cstack ++ [⟨some name, sub⟩] :=
      List.take_of_length_le (Nat.le_of_eq (length_pushed _ _).symm)
    exact ⟨stale ++ [sub], all.symm ▸ stacked.stale sub⟩

theorem fits_dropThrough (label : Nat) (fits : Fits frames cstack) :
    Fits (Stacks.dropThrough label frames) cstack := by
  induction frames with
  | nil => exact fits
  | cons frame frames ih =>
    rw [Stacks.dropThrough]
    by_cases found : frame.label = .mark label
    · rw [if_pos found]
      exact fits.tail
    · rw [if_neg found]
      exact ih fits.tail

theorem fits_holdCaptures (fits : Fits frames cstack) (path : List (Capture M)) :
    Fits (Stacks.holdCaptures cstack.length path frames) cstack ∧
      topCaps (Stacks.holdCaptures cstack.length path frames) = cstack.length := by
  cases frames with
  | nil => exact ⟨fits.cons rfl (restores_of_neg (Int.negSucc_lt_zero 0) _), rfl⟩
  | cons frame frames =>
    rw [Stacks.holdCaptures]
    by_cases autofail : frame.pos < 0
    · rw [if_pos autofail]
      exact ⟨fits.tail.cons rfl (restores_of_neg autofail _), rfl⟩
    · rw [if_neg autofail]
      exact ⟨fits.cons rfl (restores_of_neg (Int.negSucc_lt_zero 0) _), rfl⟩

theorem sound_rxcommit (sound : Sound cur) (label : Nat) : Sound (cur.rxcommit label) := by
  have fits := fits_dropThrough label sound.fits
  by_cases captures : 0 < topCaps cur.bstack
  · have held := fits_holdCaptures fits cur.path
    rw [← sound.height] at held
    have frames : (cur.rxcommit label).bstack = _ := if_pos captures
    exact ⟨frames ▸ held.2.trans sound.height, frames ▸ held.1, sound.stacked⟩
  have frames : (cur.rxcommit label).bstack = _ := if_neg captures
  have empty : cur.cstack.length = 0 := by
    rw [← sound.height]
    exact Nat.eq_zero_of_not_pos captures
  refine ⟨frames ▸ ?_, frames ▸ fits, sound.stacked⟩
  exact Nat.le_antisymm fits.height (empty ▸ Nat.zero_le _)

theorem sound_failTo (fits : Fits frames cstack)
    (taken : Stacks.failTo frames cstack = some (frame, after)) : Sound after := by
  induction frames with
  | nil => cases taken
  | cons top frames ih =>
    rw [Stacks.failTo] at taken
    by_cases done : top.pos < -1
    · rw [if_pos done] at taken
      cases taken
    rw [if_neg done] at taken
    by_cases autofail : top.pos < 0
    · rw [if_pos autofail] at taken
      exact ih fits.tail taken
    rw [if_neg autofail] at taken
    have below := fits.tail
    have height : topCaps frames = (cstack.take (topCaps frames)).length :=
      (List.length_take_of_le below.height).symm
    have belowFits : Fits frames (cstack.take (topCaps frames)) := by
      refine ⟨Nat.le_of_eq height, ?_⟩
      rw [List.take_take, Nat.min_self]
      exact below.chain
    have reached : 0 ≤ top.pos := Int.not_lt.mp autofail
    have restored := fits.restores reached
    cases label : top.label with
    | zero =>
      rw [label] at taken
      exact ih below taken
    | mark mark =>
      rw [label] at taken restored
      cases taken
      exact ⟨height, belowFits, [], restored, fun _ => rfl⟩
    | back name =>
      rw [label] at taken restored
      cases taken
      rcases restored with ⟨stale, stacked⟩
      exact ⟨height, belowFits, stale, stacked, nofun⟩

/-- The stacks of a regex are always those of its path. -/
theorem Step.sound (sound : Sound cur) (step : Step cur after) : Sound after := by
  cases step with
  | mark label pos rep taken => exact sound_rxmark sound taken label pos rep
  | alternation pos labels taken => exact sound_runAlternation sound taken pos labels
  | capture pos name sub taken => exact sound_cursorCapture sound taken pos (some name) sub
  | subrule pos name sub taken => exact sound_subrule sound pos (.inl taken) sub
  | retake pos sub again => exact sound_subrule sound pos (.inr again) sub
  | commit label _ => exact sound_rxcommit sound label
  | fail taken => exact sound_failTo sound.fits taken

theorem Reachable.sound (reachable : Reachable cur) : Sound cur := by
  induction reachable with
  | refl => exact sound_start
  | tail _ step ih => exact step.sound ih

/-- Without going back, every cursor on the stack belongs to a capture of the path. -/
theorem Reachable.attempts (reachable : Reachable cur) (taken : cur.retry = none) :
    ∃ attempts : List (Attempts M),
      cur.path = attempts.map Attempts.capture ∧ cur.cstack = attempts.flatMap Attempts.stack := by
  rcases reachable.sound.stacked_of_none taken with ⟨attempts, path, cstack⟩
  exact ⟨attempts, path, cstack.trans (List.append_nil _)⟩

theorem reachable_of_captures (captures : List (Capture M)) :
    ∃ cur : Stacks M, Reachable cur ∧ cur.retry = none ∧ cur.path = captures := by
  induction captures using List.reverseRecOn with
  | nil => exact ⟨.start, .refl, rfl, rfl⟩
  | append_singleton captures capture ih =>
    rcases ih with ⟨cur, reachable, taken, path⟩
    refine ⟨cur.subrule 0 capture.name capture.sub,
      reachable.tail (.subrule 0 capture.name capture.sub taken), rfl, ?_⟩
    rw [← path]
    cases capture with
    | mk name sub =>
      cases name with
      | none => rfl
      | some name => rfl

end RakudoStar.QRegex
