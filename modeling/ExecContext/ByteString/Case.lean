import ExecContext.ByteString.Basic

/-!
# Letter case

Only the bytes `A` to `Z` and `a` to `z` have case; every other byte, those of
multi-byte characters included, stands for itself.  Case is removed in two
ways: by folding a name to lower case, and by comparing two names directly.

Main results:

- Theorem `ByteString.length_lower`: folding keeps the length.
- Theorem `ByteString.lower_lower`: folding twice is folding once.
- Theorem `ByteString.lowerByte_of_not_upper`: a byte outside `A` to `Z` is
  left as it is.
-/

namespace ExecContext

namespace ByteString

/-- The bytes `A` to `Z`. -/
def isUpperByte (b : UInt8) : Bool :=
  0x41 ≤ b && b ≤ 0x5A

/-- A capital letter becomes its small letter; any other byte is kept. -/
def lowerByte (b : UInt8) : UInt8 :=
  if isUpperByte b then b + 0x20 else b

/-- Folds a name to lower case byte by byte. -/
def lower (x : ByteString) : ByteString :=
  x.map lowerByte

/-- Two bytes agree when they are equal or are the capital and the small form
of one letter. -/
def bytesAgree (a b : UInt8) : Bool :=
  a == b || (isUpperByte a && b == a + 0x20) || (isUpperByte b && a == b + 0x20)

/-- Two names agree up to case when they have one length and agree byte by
byte. -/
def equalsIgnoringCase : ByteString → ByteString → Bool
  | [], [] => true
  | a :: as, b :: bs => bytesAgree a b && equalsIgnoringCase as bs
  | _, _ => false

/-! ## Folding -/

theorem lowerByte_of_not_upper {b : UInt8} (h : isUpperByte b = false) :
    lowerByte b = b := by
  simp [lowerByte, h]

theorem lowerByte_of_upper {b : UInt8} (h : isUpperByte b = true) :
    lowerByte b = b + 0x20 := by
  simp [lowerByte, h]

/-- The capital letters are the bytes from 65 to 90. -/
theorem isUpperByte_iff (b : UInt8) :
    isUpperByte b = true ↔ 65 ≤ b.toNat ∧ b.toNat ≤ 90 := by
  simp [isUpperByte, UInt8.le_iff_toNat_le]

/-- No folded byte is a capital letter. -/
theorem isUpperByte_lowerByte (b : UInt8) : isUpperByte (lowerByte b) = false := by
  cases h : isUpperByte b with
  | false => rw [lowerByte_of_not_upper h, h]
  | true =>
    have hb := (isUpperByte_iff b).mp h
    rw [lowerByte_of_upper h, Bool.eq_false_iff, Ne, isUpperByte_iff]
    simp only [UInt8.toNat_add, UInt8.reduceToNat]
    omega

@[simp]
theorem lowerByte_lowerByte (b : UInt8) : lowerByte (lowerByte b) = lowerByte b :=
  lowerByte_of_not_upper (isUpperByte_lowerByte b)

@[simp]
theorem lower_nil : lower [] = [] :=
  rfl

@[simp]
theorem lower_cons (b : UInt8) (x : ByteString) : lower (b :: x) = lowerByte b :: lower x :=
  rfl

@[simp]
theorem length_lower (x : ByteString) : (lower x).length = x.length := by
  simp [lower]

@[simp]
theorem lower_lower (x : ByteString) : lower (lower x) = lower x := by
  simp [lower]

end ByteString

end ExecContext
