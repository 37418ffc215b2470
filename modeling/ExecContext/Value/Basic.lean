import ExecContext.ByteString.Basic
import ExecContext.Value.Binary64

/-!
# Values

A value is null, a truth value, a signed 64-bit integer, a float or a byte
string.  `Value.equals` is equality as programs see it: values of different
tags are never equal, and floats compare by IEEE 754.  Lean's own equality
tells floats apart by their bits and is the finer one on zeros and NaNs.

Main results:

- Theorem `Value.tag_eq_of_equals`: equal values have one tag.
- Theorem `Value.equals_self`: a value equals itself exactly when it is no NaN.
-/

namespace ExecContext

/-- A value that programs compute with. -/
inductive Value where
  | null
  | bool (b : Bool)
  | int (n : Int64)
  | float (x : Binary64)
  | string (s : ByteString)
  deriving DecidableEq, Repr

/-- The kind of a value, without its content. -/
inductive Tag where
  | null
  | bool
  | int
  | float
  | string
  deriving DecidableEq, Repr

/-- The name of a type as programs write it. -/
def Tag.typeName : Tag → String
  | .null => "null"
  | .bool => "bool"
  | .int => "int"
  | .float => "float"
  | .string => "string"

namespace Value

/-- A string value holding the UTF-8 bytes of a text. -/
def ofString (s : String) : Value :=
  .string (ByteString.ofString s)

/-- The kind of a value. -/
def tag : Value → Tag
  | .null => .null
  | .bool _ => .bool
  | .int _ => .int
  | .float _ => .float
  | .string _ => .string

/-- The name of a value's type. -/
def typeName (v : Value) : String :=
  v.tag.typeName

/-- Whether the value is null. -/
def isNull : Value → Bool
  | .null => true
  | _ => false

/-- Whether the value is a NaN. -/
def isNaN : Value → Bool
  | .float x => x.isNaN
  | _ => false

/-- Equality as programs see it. -/
def equals : Value → Value → Bool
  | .null, .null => true
  | .bool a, .bool b => a == b
  | .int a, .int b => a == b
  | .float a, .float b => a.equals b
  | .string a, .string b => a == b
  | _, _ => false

/-- Equal values have one tag. -/
theorem tag_eq_of_equals {v w : Value} (h : v.equals w = true) : v.tag = w.tag := by
  cases v <;> cases w <;> simp_all [equals, tag]

/-- A value equals itself exactly when it is no NaN. -/
theorem equals_self (v : Value) : v.equals v = !v.isNaN := by
  cases v <;> simp [equals, isNaN, Binary64.equals_self]

end Value

end ExecContext
