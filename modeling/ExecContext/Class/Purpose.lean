/-!
# Purposes of reading

A purpose is a set of flags in a 32-bit word.  One flag has a meaning so far;
the others may be set too and are kept, so that two purposes meet whenever they
share any bit at all.

Main results:

- Theorem `Purpose.intersects_comm`: meeting is symmetric.
- Theorem `Purpose.intersects_empty`: nothing meets the empty purpose.
-/

namespace ExecContext

/-- Why the properties of an instance are read, as a set of flags. -/
structure Purpose where
  bits : UInt32
  deriving DecidableEq, Repr

namespace Purpose

/-- The empty set of flags. -/
def empty : Purpose :=
  ⟨0⟩

/-- Reading for a debugging dump. -/
def debug : Purpose :=
  ⟨1⟩

/-- All flags that have a meaning. -/
def known : Purpose :=
  debug

/-- The purpose of these bits, if each of them has a meaning. -/
def ofBits? (bits : UInt32) : Option Purpose :=
  if bits &&& ~~~known.bits = 0 then some ⟨bits⟩ else none

/-- The purpose of those of these bits that have a meaning. -/
def truncate (bits : UInt32) : Purpose :=
  ⟨bits &&& known.bits⟩

/-- Whether no flag is set. -/
def isEmpty (p : Purpose) : Bool :=
  p.bits == 0

/-- Whether all flags of `q` are set in `p`. -/
def contains (p q : Purpose) : Bool :=
  p.bits &&& q.bits == q.bits

/-- Whether every flag that has a meaning is set, others perhaps too. -/
def isAll (p : Purpose) : Bool :=
  p.contains known

/-- Whether two purposes share a flag. -/
def intersects (p q : Purpose) : Bool :=
  p.bits &&& q.bits != 0

/-- The flags of either. -/
def union (p q : Purpose) : Purpose :=
  ⟨p.bits ||| q.bits⟩

/-- The flags of both. -/
def intersection (p q : Purpose) : Purpose :=
  ⟨p.bits &&& q.bits⟩

/-- The flags of `p` that `q` lacks. -/
def difference (p q : Purpose) : Purpose :=
  ⟨p.bits &&& ~~~q.bits⟩

/-- The flags of exactly one of the two. -/
def symmetricDifference (p q : Purpose) : Purpose :=
  ⟨p.bits ^^^ q.bits⟩

/-- The flags with a meaning that `p` lacks. -/
def complement (p : Purpose) : Purpose :=
  truncate (~~~p.bits)

theorem intersects_comm (p q : Purpose) : p.intersects q = q.intersects p := by
  simp [intersects, UInt32.and_comm]

@[simp]
theorem intersects_empty (p : Purpose) : p.intersects empty = false := by
  simp [intersects, empty]

end Purpose

end ExecContext
