import ExecContext.Constant.Step
import ExecContext.Context.Config
import ExecContext.Frame.Stack
import ExecContext.Symbol.Registry

/-!
# Execution contexts

A context joins a symbol registry, a constant table and a frame stack.  Its
operations are those of the three parts; it adds events for the log about frames
that move and constants that are rejected.

Main results:

- Theorem `Context.stack_declareConstant` and its companions: an operation on one
  part leaves the other two alone.
-/

namespace ExecContext

/-- The execution context of one machine, with frames of type `F` and filters named
by `φ`. -/
structure Context (F φ : Type) where
  symbols : Registry φ := .empty
  constants : ConstantTable := .empty
  stack : FrameStack F := .empty

namespace Context

variable {F φ α : Type}

/-! ## Creation -/

/-- A context with the constants of its configuration, no symbols and no frames. -/
def create (config : Config) : Context F φ :=
  { constants := config.constantTable }

/-- What the creation of a context reports. -/
def creationEvents (config : Config) : List Event :=
  [.contextCreated config.stackCapacity config.constantTable.size]

/-! ## Symbols -/

/-- Declares a function under its folded name. -/
def declareFunction (c : Context F φ) (f : Shared FunctionDecl) : Outcome (Context F φ) Unit :=
  (c.symbols.declareFunction f).map (fun _ => ()) fun r => { c with symbols := r }

/-- Declares a class under its folded name. -/
def declareClass (c : Context F φ) (d : ClassDecl φ) : Outcome (Context F φ) Unit :=
  (c.symbols.declareClass d).map (fun _ => ()) fun r => { c with symbols := r }

/-- The function declared last under a spelling of the name. -/
def lookupFunction (c : Context F φ) (name : ByteString) : Option (Shared FunctionDecl) :=
  c.symbols.lookupFunction name

/-- The class declared last under a spelling of the name. -/
def lookupClass (c : Context F φ) (name : ByteString) : Option (ClassDecl φ) :=
  c.symbols.lookupClass name

/-- Acts on a declared class in its place. -/
def updateClass (c : Context F φ) (name : ByteString)
    (act : ClassDecl φ → Outcome (ClassDecl φ) α) : Outcome (Context F φ) (Option α) :=
  (c.symbols.updateClass name act).map id fun r => { c with symbols := r }

/-! ## Constants -/

/-- What a constant's name means: a keyword in any case, else a constant of exactly
that name. -/
def fetchConstant (c : Context F φ) (name : ByteString) : Option Value :=
  c.constants.resolve name

/-- Declares a constant.  A rejection is reported and changes nothing. -/
def declareConstant (c : Context F φ) (name : ByteString) (v : Value) :
    Outcome (Context F φ) (Except ConstantError Unit) :=
  match c.constants.declare name v with
  | .error e => { answer := .error e, events := [.constantRejected e], state := c }
  | .ok t => { answer := .ok (), state := { c with constants := t } }

/-- Whether a constant's name means anything. -/
def isConstantDefined (c : Context F φ) (name : ByteString) : Bool :=
  c.constants.isDefined name

/-! ## Frames -/

/-- Makes a frame current. -/
def push (c : Context F φ) (f : F) : Outcome (Context F φ) Unit :=
  let s := c.stack.push f
  { answer := (), events := [.framePushed s.depth], state := { c with stack := s } }

/-- Takes the current frame off.  Without one nothing is reported. -/
def pop (c : Context F φ) : Outcome (Context F φ) (Option F) :=
  let (f, s) := c.stack.pop
  { answer := f
    events := if f.isSome then [.framePopped s.depth] else []
    state := { c with stack := s } }

/-- The current frame. -/
def current (c : Context F φ) : Option F :=
  c.stack.peek

/-- Changes the current frame, if there is one. -/
def modifyCurrent (c : Context F φ) (change : F → F) : Context F φ :=
  { c with stack := c.stack.modifyTop change }

/-- The number of frames. -/
def depth (c : Context F φ) : Nat :=
  c.stack.depth

/-- Whether there are no frames. -/
def isEmpty (c : Context F φ) : Bool :=
  c.stack.isEmpty

/-- All frames, newest first. -/
def frames (c : Context F φ) : List F :=
  c.stack.frames

/-- Pushes a frame and detaches the whole chain for a nested run. -/
def save (c : Context F φ) (f : F) : Outcome (Context F φ) (SavedChain F) :=
  let (chain, s) := c.stack.save f
  { answer := chain, events := [.stackSaved chain.depth], state := { c with stack := s } }

/-- Puts a chain back on an empty stack and hands back its current frame.  A refusal
changes nothing and is not reported. -/
def restore (c : Context F φ) (chain : SavedChain F) :
    Outcome (Context F φ) (Except RestoreError F) :=
  match c.stack.restore chain with
  | .error e => { answer := .error e, state := c }
  | .ok (f, s) =>
    { answer := .ok f, events := [.stackRestored chain.depth], state := { c with stack := s } }

/-! ## One part at a time -/

@[simp]
theorem symbols_push (c : Context F φ) (f : F) : (c.push f).state.symbols = c.symbols :=
  rfl

@[simp]
theorem constants_push (c : Context F φ) (f : F) : (c.push f).state.constants = c.constants :=
  rfl

@[simp]
theorem symbols_pop (c : Context F φ) : c.pop.state.symbols = c.symbols :=
  rfl

@[simp]
theorem constants_pop (c : Context F φ) : c.pop.state.constants = c.constants :=
  rfl

@[simp]
theorem symbols_save (c : Context F φ) (f : F) : (c.save f).state.symbols = c.symbols :=
  rfl

@[simp]
theorem constants_save (c : Context F φ) (f : F) : (c.save f).state.constants = c.constants :=
  rfl

@[simp]
theorem symbols_restore (c : Context F φ) (chain : SavedChain F) :
    (c.restore chain).state.symbols = c.symbols := by
  cases h : c.stack.restore chain <;> simp [restore, h]

@[simp]
theorem constants_restore (c : Context F φ) (chain : SavedChain F) :
    (c.restore chain).state.constants = c.constants := by
  cases h : c.stack.restore chain <;> simp [restore, h]

@[simp]
theorem stack_declareFunction (c : Context F φ) (f : Shared FunctionDecl) :
    (c.declareFunction f).state.stack = c.stack :=
  rfl

@[simp]
theorem stack_declareClass (c : Context F φ) (d : ClassDecl φ) :
    (c.declareClass d).state.stack = c.stack :=
  rfl

@[simp]
theorem stack_declareConstant (c : Context F φ) (name : ByteString) (v : Value) :
    (c.declareConstant name v).state.stack = c.stack := by
  cases h : c.constants.declare name v <;> simp [declareConstant, h]

end Context

end ExecContext
