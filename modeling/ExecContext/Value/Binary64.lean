/-!
# Binary64 floats

A float is its 64 bits: a sign, eleven exponent bits and fifty-two fraction
bits.  Equality is that of IEEE 754: a NaN equals nothing, the two zeros are
equal, and any other float equals itself alone.

Main results:

- Theorem `Binary64.equals_self`: a float equals itself exactly when it is no NaN.
- Theorem `Binary64.equals_comm`: equality is symmetric.
-/

namespace ExecContext

/-- A float, given by its bits. -/
structure Binary64 where
  bits : UInt64
  deriving DecidableEq, Repr

namespace Binary64

/-- The exponent field, eleven bits wide. -/
def exponent (x : Binary64) : UInt64 :=
  (x.bits >>> 52) &&& 0x7FF

/-- The fraction field, fifty-two bits wide. -/
def fraction (x : Binary64) : UInt64 :=
  x.bits &&& 0xFFFFFFFFFFFFF

/-- A NaN has all exponent bits set and some fraction bit. -/
def isNaN (x : Binary64) : Bool :=
  x.exponent == 0x7FF && x.fraction != 0

/-- A zero of either sign has no bit set but perhaps the sign. -/
def isZero (x : Binary64) : Bool :=
  x.bits == 0 || x.bits == 0x8000000000000000

/-- IEEE 754 equality. -/
def equals (x y : Binary64) : Bool :=
  !x.isNaN && !y.isNaN && (x == y || (x.isZero && y.isZero))

theorem equals_self (x : Binary64) : x.equals x = !x.isNaN := by
  cases h : x.isNaN <;> simp [equals, h]

theorem equals_comm (x y : Binary64) : x.equals y = y.equals x := by
  unfold equals
  rw [Bool.beq_comm, Bool.and_comm x.isZero, Bool.and_comm (!x.isNaN)]

end Binary64

end ExecContext
