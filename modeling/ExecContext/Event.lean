import ExecContext.Constant.Error

/-!
# Events

A context reports what it does as events for a log.  Each event has a level, a
fixed message and named fields; numbers appear in decimal and names as their
display text.
-/

namespace ExecContext

/-- How much detail an event belongs to. -/
inductive Level where
  | debug
  | trace
  deriving DecidableEq, Repr

/-- The level as the log writes it. -/
def Level.label : Level → String
  | .debug => "DEBUG"
  | .trace => "TRACE"

/-- Something that happened in a context. -/
inductive Event where
  /-- A context began with this many constants and room for this many frames. -/
  | contextCreated (stackCapacity constants : Nat)
  | functionDeclared (name : String)
  | functionRedeclared (name : String)
  | classDeclared (name : String)
  | classRedeclared (name : String)
  | constantRejected (error : ConstantError)
  /-- A frame was pushed, giving this depth. -/
  | framePushed (depth : Nat)
  /-- A frame was popped, leaving this depth. -/
  | framePopped (depth : Nat)
  /-- A chain of this many frames was detached. -/
  | stackSaved (depth : Nat)
  /-- A chain of this many frames was put back. -/
  | stackRestored (depth : Nat)
  deriving DecidableEq, Repr

namespace Event

/-- Movements of single frames and chains are traced; all else is for debugging. -/
def level : Event → Level
  | .framePushed _ | .framePopped _ | .stackSaved _ | .stackRestored _ => .trace
  | _ => .debug

/-- The message of an event. -/
def message : Event → String
  | .contextCreated .. => "context created"
  | .functionDeclared _ => "function declared"
  | .functionRedeclared _ => "function redeclared"
  | .classDeclared _ => "class declared"
  | .classRedeclared _ => "class redeclared"
  | .constantRejected _ => "constant declaration rejected"
  | .framePushed _ => "frame pushed"
  | .framePopped _ => "frame popped"
  | .stackSaved _ => "frame stack saved"
  | .stackRestored _ => "frame stack restored"

/-- The fields of an event, each with its text. -/
def fields : Event → List (String × String)
  | .contextCreated capacity constants =>
    [("stack_capacity", toString capacity), ("constants", toString constants)]
  | .functionDeclared name | .functionRedeclared name
  | .classDeclared name | .classRedeclared name => [("name", name)]
  | .constantRejected error => [("error", error.message)]
  | .framePushed depth | .framePopped depth
  | .stackSaved depth | .stackRestored depth => [("depth", toString depth)]

end Event

end ExecContext
