import ExecContext.ByteString.Utf8
import ExecContext.Shared
import ExecContext.Value.Basic

/-!
# Functions

A function names its parameters in order and shares its body: a class may hold
the same body as its constructor.

Main results:

- Theorem `FunctionDecl.params_withParam`: a parameter is added at the end.
-/

namespace ExecContext

/-- The body of a callable, known by the name under which it was written. -/
structure Body where
  name : ByteString
  deriving DecidableEq, Repr

/-- A parameter, passed by value and required unless it says otherwise. -/
structure Parameter where
  name : ByteString
  byReference : Bool := false
  isVariadic : Bool := false
  default : Option Value := none
  deriving DecidableEq, Repr

/-- A function as it is declared. -/
structure FunctionDecl where
  name : ByteString
  body : Shared Body
  params : List Parameter := []
  isGenerator : Bool := false
  returnsReference : Bool := false
  deriving DecidableEq, Repr

namespace FunctionDecl

/-- The function with one more parameter. -/
def withParam (f : FunctionDecl) (p : Parameter) : FunctionDecl :=
  { f with params := f.params ++ [p] }

/-- The function with further parameters of the given names, all required and
passed by value. -/
def withRequired (f : FunctionDecl) (names : List ByteString) : FunctionDecl :=
  names.foldl (fun g name => g.withParam { name }) f

/-- The name as text. -/
def displayName (f : FunctionDecl) : String :=
  f.name.display

@[simp]
theorem params_withParam (f : FunctionDecl) (p : Parameter) :
    (f.withParam p).params = f.params ++ [p] :=
  rfl

@[simp]
theorem body_withParam (f : FunctionDecl) (p : Parameter) : (f.withParam p).body = f.body :=
  rfl

end FunctionDecl

end ExecContext
