/-!
# Frame stacks

A frame stack holds the frames of one run, the current frame on top.  A nested
run starts by saving: one more frame is pushed and the whole chain is detached,
which leaves the stack empty.  Restoring puts a chain back, less the frame that
was current when it was saved, and is refused while frames are active.

Main results:

- Theorem `FrameStack.restore_save`: restoring what was just saved gives the frame
  and the stack back.
- Theorem `FrameStack.pop_push`: popping gives the frame pushed last.
- Theorem `FrameStack.restore_eq_error_iff`: restoring is refused exactly on a
  stack that has frames, and the refusal carries their number.
-/

namespace ExecContext

/-- The active frames, newest first. -/
structure FrameStack (F : Type) where
  frames : List F := []
  deriving DecidableEq

/-- A detached chain: the frame current at its save, and the frames beneath it,
newest first. -/
structure SavedChain (F : Type) where
  current : F
  outer : List F
  deriving DecidableEq

/-- A chain cannot be restored while so many frames are active. -/
structure RestoreError where
  active : Nat
  deriving DecidableEq, Repr

/-- The text shown for a refused restore. -/
def RestoreError.message (e : RestoreError) : String :=
  "cannot restore a saved frame stack while " ++ toString e.active ++ " frame(s) are active"

namespace SavedChain

variable {F : Type}

/-- All frames of the chain, newest first. -/
def frames (c : SavedChain F) : List F :=
  c.current :: c.outer

/-- The number of frames, the current one included. -/
def depth (c : SavedChain F) : Nat :=
  c.frames.length

@[simp]
theorem depth_eq (c : SavedChain F) : c.depth = c.outer.length + 1 :=
  rfl

end SavedChain

namespace FrameStack

variable {F : Type}

/-- The stack without frames. -/
def empty : FrameStack F :=
  {}

/-- Makes a frame current. -/
def push (s : FrameStack F) (f : F) : FrameStack F :=
  ⟨f :: s.frames⟩

/-- Takes the current frame off, if there is one. -/
def pop (s : FrameStack F) : Option F × FrameStack F :=
  (s.frames.head?, ⟨s.frames.tail⟩)

/-- The current frame. -/
def peek (s : FrameStack F) : Option F :=
  s.frames.head?

/-- Changes the current frame, if there is one. -/
def modifyTop (s : FrameStack F) (change : F → F) : FrameStack F :=
  ⟨s.frames.modifyHead change⟩

/-- The number of frames. -/
def depth (s : FrameStack F) : Nat :=
  s.frames.length

/-- Whether there are no frames. -/
def isEmpty (s : FrameStack F) : Bool :=
  s.frames.isEmpty

/-- Pushes a frame and detaches the whole chain, leaving the stack empty. -/
def save (s : FrameStack F) (f : F) : SavedChain F × FrameStack F :=
  (⟨f, s.frames⟩, empty)

/-- Puts a chain back on an empty stack and hands back the frame that was current
at its save. -/
def restore (s : FrameStack F) (c : SavedChain F) : Except RestoreError (F × FrameStack F) :=
  if s.isEmpty then .ok (c.current, ⟨c.outer⟩) else .error ⟨s.depth⟩

/-! ## Frames after each operation -/

@[simp]
theorem frames_push (s : FrameStack F) (f : F) : (s.push f).frames = f :: s.frames :=
  rfl

@[simp]
theorem frames_pop (s : FrameStack F) : s.pop.2.frames = s.frames.tail :=
  rfl

/-- Popping gives the frame pushed last. -/
@[simp]
theorem pop_push (s : FrameStack F) (f : F) : (s.push f).pop = (some f, s) :=
  rfl

@[simp]
theorem frames_modifyTop_cons (f : F) (rest : List F) (change : F → F) :
    (FrameStack.modifyTop ⟨f :: rest⟩ change).frames = change f :: rest :=
  rfl

@[simp]
theorem depth_modifyTop (s : FrameStack F) (change : F → F) :
    (s.modifyTop change).depth = s.depth := by
  simp [modifyTop, depth]

/-- Saving leaves no frames. -/
@[simp]
theorem frames_save (s : FrameStack F) (f : F) : (s.save f).2.frames = [] :=
  rfl

/-- Restoring what was just saved gives the frame and the stack back. -/
theorem restore_save (s : FrameStack F) (f : F) :
    (s.save f).2.restore (s.save f).1 = .ok (f, s) :=
  rfl

theorem isEmpty_iff (s : FrameStack F) : s.isEmpty = true ↔ s.frames = [] := by
  simp [isEmpty]

/-- Restoring is refused exactly on a stack that has frames. -/
theorem restore_eq_error_iff (s : FrameStack F) (c : SavedChain F) (e : RestoreError) :
    s.restore c = .error e ↔ s.frames ≠ [] ∧ e.active = s.frames.length := by
  unfold restore
  cases h : s.isEmpty with
  | true => simp [(isEmpty_iff s).mp h]
  | false =>
    have hne : s.frames ≠ [] := fun hn => by simp [(isEmpty_iff s).mpr hn] at h
    obtain ⟨n⟩ := e
    simp [hne, depth, eq_comm]

end FrameStack

end ExecContext
