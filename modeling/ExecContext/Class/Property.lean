import ExecContext.Table.Basic
import ExecContext.Value.Basic

/-!
# Properties

A class declares properties; an instance has a table of their values.  Two such
tables are equal when they hold equal values under the same names, whatever the
order.

Main results:

- Theorem `PropertyTable.equals_empty`: only the empty table equals the empty one.
-/

namespace ExecContext

/-- From where a property may be used. -/
inductive Visibility where
  | everywhere
  | descendants
  | ownClass
  deriving DecidableEq, Repr

/-- The keyword that declares a visibility. -/
def Visibility.keyword : Visibility → String
  | .everywhere => "public"
  | .descendants => "protected"
  | .ownClass => "private"

/-- How a property is declared. -/
structure PropertyDecl where
  default : Option Value := none
  visibility : Visibility := .everywhere
  isStatic : Bool := false
  isReadonly : Bool := false
  deriving DecidableEq, Repr

/-- The values of an instance's properties, by name. -/
abbrev PropertyTable :=
  Table Value

namespace PropertyTable

/-- Two property tables are equal when they have as many entries and each value of
the one equals what the other holds under that name. -/
def equals (p q : PropertyTable) : Bool :=
  p.size == q.size && p.entries.all fun e =>
    match q.get? e.1 with
    | some w => e.2.equals w
    | none => false

theorem equals_empty (p : PropertyTable) : equals p Table.empty = p.isEmpty := by
  cases h : p.entries <;> simp [equals, Table.empty, Table.size, Table.isEmpty, h]

end PropertyTable

end ExecContext
