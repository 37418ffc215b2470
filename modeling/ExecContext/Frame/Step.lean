import ExecContext.Frame.Saved
import ExecContext.Outcome

/-!
# Steps on a frame stack

The steps that runs take on a stack, as data, with what each answers.  A step
works on one stack and on the pool of saved chains, which several stacks may
share.  Restoring uses its handle up even when it is refused; resuming restores
a chain and makes the frame that is handed back current again.

Main results:

- Theorem `FrameStack.step_restore_noHandle`: a handle that finds nothing changes nothing.
- Theorem `FrameStack.events_step`: a bare stack emits nothing.
-/

namespace ExecContext

/-- A step on frames. -/
inductive FrameStep (F : Type) where
  | push (frame : F)
  | pop
  | peek
  /-- All frames, newest first. -/
  | frames
  /-- Change the current frame. -/
  | modifyTop (change : F → F)
  /-- Push a copy of the current frame. -/
  | duplicate
  | save (frame : F)
  /-- Look at the chain under a handle. -/
  | inspect (handle : Nat)
  /-- Give the chain under a handle up. -/
  | discard (handle : Nat)
  | restore (handle : Nat)
  | resume (handle : Nat)

/-- What a step on frames answers. -/
inductive FrameAnswer (F : Type) where
  | done
  | frame (found : Option F)
  | frames (newestFirst : List F)
  /-- Whether there was a current frame to act on. -/
  | acted (found : Bool)
  | saved (handle : Nat) (chain : SavedChain F)
  | chain (found : SavedChain F)
  | restored (frame : F)
  | refused (error : RestoreError)
  /-- The handle was never issued or is used up. -/
  | noHandle

namespace FrameStack

variable {F : Type}

/-- Takes one step on a stack and the pool of saved chains. -/
def step (s : FrameStack F) (p : SavedPool F) :
    FrameStep F → Outcome (FrameStack F × SavedPool F) (FrameAnswer F)
  | .push f => { answer := .done, state := (s.push f, p) }
  | .pop => { answer := .frame s.pop.1, state := (s.pop.2, p) }
  | .peek => { answer := .frame s.peek, state := (s, p) }
  | .frames => { answer := .frames s.frames, state := (s, p) }
  | .modifyTop change =>
    { answer := .acted s.peek.isSome, state := (s.modifyTop change, p) }
  | .duplicate =>
    match s.peek with
    | none => { answer := .acted false, state := (s, p) }
    | some f => { answer := .acted true, state := (s.push f, p) }
  | .save f =>
    { answer := .saved p.nextHandle (s.save f).1, state := ((s.save f).2, p.issue (s.save f).1) }
  | .inspect h =>
    match p.get? h with
    | none => { answer := .noHandle, state := (s, p) }
    | some c => { answer := .chain c, state := (s, p) }
  | .discard h =>
    match p.get? h with
    | none => { answer := .noHandle, state := (s, p) }
    | some _ => { answer := .done, state := (s, p.remove h) }
  | .restore h =>
    match p.get? h with
    | none => { answer := .noHandle, state := (s, p) }
    | some c =>
      match s.restore c with
      | .error e => { answer := .refused e, state := (s, p.remove h) }
      | .ok (f, s') => { answer := .restored f, state := (s', p.remove h) }
  | .resume h =>
    match p.get? h with
    | none => { answer := .noHandle, state := (s, p) }
    | some c =>
      match s.restore c with
      | .error e => { answer := .refused e, state := (s, p.remove h) }
      | .ok (f, s') => { answer := .done, state := (s'.push f, p.remove h) }

/-- A restore through a handle that finds nothing changes nothing. -/
theorem step_restore_noHandle (s : FrameStack F) {p : SavedPool F} {h : Nat}
    (hn : p.get? h = none) :
    s.step p (.restore h) = { answer := .noHandle, state := (s, p) } := by
  simp [step, hn]

/-- A bare stack emits nothing. -/
@[simp]
theorem events_step (s : FrameStack F) (p : SavedPool F) (i : FrameStep F) :
    (s.step p i).events = [] := by
  cases i with
  | push | pop | peek | frames | modifyTop | save => rfl
  | duplicate => cases h : s.peek <;> simp [step, h]
  | inspect k => cases h : p.get? k <;> simp [step, h]
  | discard k => cases h : p.get? k <;> simp [step, h]
  | restore k =>
    cases h : p.get? k with
    | none => simp [step, h]
    | some c => cases hr : s.restore c <;> simp [step, h, hr]
  | resume k =>
    cases h : p.get? k with
    | none => simp [step, h]
    | some c => cases hr : s.restore c <;> simp [step, h, hr]

end FrameStack

end ExecContext
