import ExecContext.ByteString.Case
import ExecContext.Value.Basic

/-!
# Literal keywords

Three names stand for fixed values in whatever case they are written, and no
constant can take them over.

Main results:

- Theorem `Keyword.parse_spelling`: each keyword is read back from its spelling.
-/

namespace ExecContext

/-- A name that always means the same value. -/
inductive Keyword where
  | null
  | false
  | true
  deriving DecidableEq, Repr

namespace Keyword

/-- The lower-case spelling. -/
def spelling : Keyword → ByteString
  | .null => [0x6E, 0x75, 0x6C, 0x6C]
  | .false => [0x66, 0x61, 0x6C, 0x73, 0x65]
  | .true => [0x74, 0x72, 0x75, 0x65]

/-- The keyword that a name spells in any case, if it spells one. -/
def parse (name : ByteString) : Option Keyword :=
  [Keyword.null, .false, .true].find? fun k => name.equalsIgnoringCase k.spelling

/-- What a keyword means. -/
def value : Keyword → Value
  | .null => .null
  | .false => .bool Bool.false
  | .true => .bool Bool.true

theorem parse_spelling (k : Keyword) : parse k.spelling = some k := by
  cases k <;> decide

end Keyword

end ExecContext
