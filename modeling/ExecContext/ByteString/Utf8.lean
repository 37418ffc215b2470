import ExecContext.ByteString.Basic

/-!
# UTF-8 decoding

Bytes are read one at a time by a small machine.  Each well-formed sequence
gives its character; each longest run of bytes that begins a well-formed
sequence and then breaks off, and each byte that begins none, gives one
malformed unit.  The byte that breaks a sequence off is read again as the
first of the next one.

The display text of a name shows every malformed unit as U+FFFD.

Main results:

- Theorem `Utf8.decodeFrom_append`: reading a concatenation is reading the
  first part and going on from the state it leaves.
-/

namespace ExecContext

namespace Utf8

/-- Where the reader stands between two bytes. -/
inductive State where
  /-- No sequence is under way. -/
  | ground
  /-- A sequence whose bits so far are `scalar` goes on with a byte from `low` to
  `high`, and after it `more` others from `0x80` to `0xBF`. -/
  | within (more : Nat) (scalar : Nat) (low high : UInt8)
  deriving DecidableEq, Repr

/-- Reads a byte that stands first in its sequence.  The second byte's range
leaves out overlong forms, surrogates and values above U+10FFFF. -/
def lead (b : UInt8) : List (Option Char) × State :=
  if b ≤ 0x7F then ([some (Char.ofNat b.toNat)], .ground)
  else if 0xC2 ≤ b ∧ b ≤ 0xDF then ([], .within 0 (b.toNat % 32) 0x80 0xBF)
  else if b = 0xE0 then ([], .within 1 0 0xA0 0xBF)
  else if b = 0xED then ([], .within 1 13 0x80 0x9F)
  else if 0xE1 ≤ b ∧ b ≤ 0xEF then ([], .within 1 (b.toNat % 16) 0x80 0xBF)
  else if b = 0xF0 then ([], .within 2 0 0x90 0xBF)
  else if 0xF1 ≤ b ∧ b ≤ 0xF3 then ([], .within 2 (b.toNat % 8) 0x80 0xBF)
  else if b = 0xF4 then ([], .within 2 4 0x80 0x8F)
  else ([none], .ground)

/-- Reads one byte: the units that it completes, and where the reader stands
after it. -/
def step : State → UInt8 → List (Option Char) × State
  | .ground, b => lead b
  | .within more scalar low high, b =>
    if low ≤ b ∧ b ≤ high then
      match more with
      | 0 => ([some (Char.ofNat (scalar * 64 + b.toNat % 64))], .ground)
      | more + 1 => ([], .within more (scalar * 64 + b.toNat % 64) 0x80 0xBF)
    else (none :: (lead b).1, (lead b).2)

/-- The units left over when the bytes end: a sequence under way is malformed. -/
def State.finish : State → List (Option Char)
  | .ground => []
  | .within .. => [none]

/-- Reads all bytes from a given state. -/
def decodeFrom (s : State) : ByteString → List (Option Char)
  | [] => s.finish
  | b :: x => (step s b).1 ++ decodeFrom (step s b).2 x

/-- The units completed by the bytes, without what is under way at their end. -/
def completed (s : State) : ByteString → List (Option Char)
  | [] => []
  | b :: x => (step s b).1 ++ completed (step s b).2 x

/-- The state that the bytes leave. -/
def stateAfter (s : State) : ByteString → State
  | [] => s
  | b :: x => stateAfter (step s b).2 x

/-- The units of a byte string: its characters, and `none` for each malformed
part. -/
def decode (x : ByteString) : List (Option Char) :=
  decodeFrom .ground x

/-- The character that stands for a malformed part. -/
def replacement : Char :=
  '\uFFFD'

/-! ## Reading in parts -/

theorem decodeFrom_append (s : State) (x y : ByteString) :
    decodeFrom s (x ++ y) = completed s x ++ decodeFrom (stateAfter s x) y := by
  induction x generalizing s with
  | nil => rfl
  | cons b x ih => simp [decodeFrom, completed, stateAfter, ih]

end Utf8

namespace ByteString

/-- The display text: each malformed part is shown as U+FFFD. -/
def display (x : ByteString) : String :=
  String.ofList ((Utf8.decode x).map fun unit => unit.getD Utf8.replacement)

/-- The text that the bytes encode, if they are valid UTF-8. -/
def text? (x : ByteString) : Option String :=
  ((Utf8.decode x).mapM id).map String.ofList

@[simp]
theorem toList_display (x : ByteString) :
    x.display.toList = (Utf8.decode x).map fun unit => unit.getD Utf8.replacement := by
  simp [display]

end ByteString

end ExecContext
