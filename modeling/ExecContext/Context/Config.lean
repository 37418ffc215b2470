import ExecContext.Constant.Core

/-!
# Configurations

A configuration says how a context begins: the room that is set aside for
frames, whether the core constants are defined, and which further constants the
host defines.  It can be written down at once or built up by calls; every call
sets its own part and leaves the others alone.

Main results:

- Theorem `Config.ofCalls_append`: calls take effect one after another.
-/

namespace ExecContext

/-- How a context begins. -/
structure Config where
  stackCapacity : Nat := 64
  coreConstants : Bool := false
  /-- Constants of the host, a later one standing over an earlier one of its name. -/
  constants : List (ByteString × Value) := []
  deriving DecidableEq

/-- A call that builds a configuration up. -/
inductive BuilderCall where
  | coreConstants
  | stackCapacity (frames : Nat)
  | constant (name : ByteString) (value : Value)
  deriving DecidableEq

namespace Config

/-- The configuration after one more call. -/
def apply (c : Config) : BuilderCall → Config
  | .coreConstants => { c with coreConstants := true }
  | .stackCapacity frames => { c with stackCapacity := frames }
  | .constant name value => { c with constants := c.constants ++ [(name, value)] }

/-- The configuration that calls build up from the default one. -/
def ofCalls (calls : List BuilderCall) : Config :=
  calls.foldl apply {}

/-- The constants that a configuration stores: the core constants if they are
wanted, and over them those of the host. -/
def constantTable (c : Config) : ConstantTable :=
  (if c.coreConstants then ConstantTable.empty.insertBuiltins ConstantTable.core
    else ConstantTable.empty).insertBuiltins c.constants

/-- Calls take effect one after another. -/
theorem ofCalls_append (calls more : List BuilderCall) :
    ofCalls (calls ++ more) = more.foldl apply (ofCalls calls) := by
  simp [ofCalls]

end Config

end ExecContext
