import ExecContext.Function
import ExecContext.Table.Basic

/-!
# Call frames

The frame of a running callable: its body, the function it belongs to if any,
the position in the body, the local variables and the arguments.  A context only
moves frames about; whoever executes them amends them in place.
-/

namespace ExecContext

/-- The frame of a running callable. -/
structure CallFrame where
  body : Shared Body
  function : Option (Shared FunctionDecl) := none
  position : UInt64 := 0
  locals : Table Value := .empty
  arguments : List Value := []
  deriving DecidableEq

/-- What to amend in a frame; what is left out stays as it is. -/
structure CallFrameAmendment where
  function : Option (Option (Shared FunctionDecl)) := none
  position : Option UInt64 := none
  /-- Local variables to write, one after another. -/
  locals : List (ByteString × Value) := []
  /-- Arguments to add at the end. -/
  arguments : List Value := []
  deriving DecidableEq

namespace CallFrame

/-- The number of arguments that a frame holds without a separate buffer. -/
def inlineArguments : Nat :=
  8

/-- Applies an amendment. -/
def amend (a : CallFrameAmendment) (f : CallFrame) : CallFrame :=
  { f with
    function := a.function.getD f.function
    position := a.position.getD f.position
    locals := a.locals.foldl (fun t e => t.insert e.1 e.2) f.locals
    arguments := f.arguments ++ a.arguments }

end CallFrame

end ExecContext
