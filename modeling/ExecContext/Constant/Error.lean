/-!
# Rejected declarations

A declaration of a constant is rejected for one of two reasons; each names the
constant by its display text.

Main results:

- Theorem `ConstantError.name_redefined` and its companion: the error keeps the
  name it was built with.
-/

namespace ExecContext

/-- Why a declaration of a constant was rejected. -/
inductive ConstantError where
  /-- A constant of this very name exists already. -/
  | redefined (name : String)
  /-- The name is a literal keyword. -/
  | reserved (name : String)
  deriving DecidableEq, Repr

namespace ConstantError

/-- The rejected name. -/
def name : ConstantError → String
  | .redefined name => name
  | .reserved name => name

/-- The text shown for a rejection. -/
def message : ConstantError → String
  | .redefined name => "Constant " ++ name ++ " already defined"
  | .reserved name => name ++ " is a reserved constant and cannot be redefined"

@[simp]
theorem name_redefined (name : String) : (ConstantError.redefined name).name = name :=
  rfl

@[simp]
theorem name_reserved (name : String) : (ConstantError.reserved name).name = name :=
  rfl

end ConstantError

end ExecContext
