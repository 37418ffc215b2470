import ExecContext.ByteString.Case

/-!
# Folding and comparing

Two names fold to the same bytes exactly if they agree up to case: folding maps `A` to `Z`
onto `a` to `z` one to one, and leaves every other byte alone.

Main results:

- Theorem `ByteString.lowerByte_eq_lowerByte_iff`: bytes that fold alike agree.
- Theorem `ByteString.lower_eq_lower_iff`: names that fold alike agree.
- Theorem `ByteString.lower_eq_lower_iff_forall`: they have one length and agree byte by byte.
- Theorem `ByteString.getElem_lower`: what folding does to each byte.
-/

namespace ExecContext

namespace ByteString

/-- The small form of a letter is no capital. -/
theorem isUpperByte_add {b : UInt8} (h : isUpperByte b = true) :
    isUpperByte (b + 0x20) = false := by
  rw [← lowerByte_of_upper h]
  exact isUpperByte_lowerByte b

/-- A byte is not told apart from itself by being a capital. -/
theorem ne_of_isUpperByte {a b : UInt8} (ha : isUpperByte a = true) (hb : isUpperByte b = false) :
    a ≠ b := by
  intro hab
  rw [hab, hb] at ha
  contradiction

/-- Bytes that fold alike agree, and only these. -/
theorem lowerByte_eq_lowerByte_iff (a b : UInt8) :
    lowerByte a = lowerByte b ↔ bytesAgree a b = true := by
  unfold bytesAgree
  cases ha : isUpperByte a with
  | false =>
    cases hb : isUpperByte b with
    | false => simp [lowerByte_of_not_upper ha, lowerByte_of_not_upper hb]
    | true =>
      have hne : a ≠ b := (ne_of_isUpperByte hb ha).symm
      simp [lowerByte_of_not_upper ha, lowerByte_of_upper hb, hne]
  | true =>
    cases hb : isUpperByte b with
    | false =>
      have hne : a ≠ b := ne_of_isUpperByte ha hb
      rw [lowerByte_of_upper ha, lowerByte_of_not_upper hb, eq_comm]
      simp [hne]
    | true =>
      have hba : b ≠ a + 0x20 := ne_of_isUpperByte hb (isUpperByte_add ha)
      have hab : a ≠ b + 0x20 := ne_of_isUpperByte ha (isUpperByte_add hb)
      simp [lowerByte_of_upper ha, lowerByte_of_upper hb, hba, hab]

/-- Names that fold alike agree up to case, and only these. -/
theorem lower_eq_lower_iff (x y : ByteString) :
    x.lower = y.lower ↔ x.equalsIgnoringCase y = true := by
  induction x generalizing y with
  | nil => cases y <;> simp [equalsIgnoringCase]
  | cons a as ih =>
    cases y with
    | nil => simp [equalsIgnoringCase]
    | cons b bs =>
      rw [lower_cons, lower_cons, List.cons.injEq, lowerByte_eq_lowerByte_iff, ih,
        equalsIgnoringCase, Bool.and_eq_true]

/-! ## Byte by byte -/

/-- The bytes are equal, or a letter from `A` to `Z` and its small form, in either order. -/
def SameUpToCase (a b : UInt8) : Prop :=
  a = b ∨ (0x41 ≤ a ∧ a ≤ 0x5A ∧ b = a + 0x20) ∨ (0x61 ≤ a ∧ a ≤ 0x7A ∧ b = a - 0x20)

theorem bytesAgree_iff (a b : UInt8) : bytesAgree a b = true ↔ SameUpToCase a b := by
  simp only [bytesAgree, SameUpToCase, Bool.or_eq_true, Bool.and_eq_true, beq_iff_eq,
    isUpperByte_iff, UInt8.le_iff_toNat_le, ← UInt8.toNat_inj, UInt8.toNat_add, UInt8.toNat_sub,
    UInt8.reduceToNat]
  have ha := a.toNat_lt
  have hb := b.toNat_lt
  omega

/-- Names fold alike exactly if they have one length and agree byte by byte. -/
theorem lower_eq_lower_iff_forall (x y : ByteString) :
    x.lower = y.lower ↔
      x.length = y.length ∧
        ∀ (i : Nat) (hx : i < x.length) (hy : i < y.length), SameUpToCase x[i] y[i] := by
  simp only [lower, List.ext_getElem_iff, List.length_map, List.getElem_map,
    lowerByte_eq_lowerByte_iff, bytesAgree_iff]

/-- Folding moves the bytes `A` to `Z` to the small letters and keeps every other byte. -/
theorem getElem_lower (x : ByteString) (i : Nat) (hl : i < x.lower.length) (hx : i < x.length) :
    x.lower[i] = if 0x41 ≤ x[i] ∧ x[i] ≤ 0x5A then x[i] + 0x20 else x[i] := by
  simp only [lower, List.getElem_map, lowerByte, isUpperByte, Bool.and_eq_true, decide_eq_true_eq]

/-- What agrees with a small letter is that letter or its capital. -/
theorem sameUpToCase_iff_of_small {a b : UInt8} (hb : 0x61 ≤ b ∧ b ≤ 0x7A) :
    SameUpToCase a b ↔ a = b ∨ a = b - 0x20 := by
  simp only [SameUpToCase, UInt8.le_iff_toNat_le, ← UInt8.toNat_inj, UInt8.toNat_add,
    UInt8.toNat_sub, UInt8.reduceToNat] at hb ⊢
  have ha := a.toNat_lt
  omega

/-- A byte past ASCII is kept by folding. -/
theorem lowerByte_of_not_ascii {b : UInt8} (h : ¬ b ≤ 0x7F) : lowerByte b = b := by
  apply lowerByte_of_not_upper
  rw [Bool.eq_false_iff, Ne, isUpperByte_iff]
  simp only [UInt8.le_iff_toNat_le, UInt8.reduceToNat] at h
  omega

/-- Folding keeps ASCII apart from the rest. -/
theorem lowerByte_le_iff (b : UInt8) : lowerByte b ≤ 0x7F ↔ b ≤ 0x7F := by
  cases hb : isUpperByte b with
  | false => rw [lowerByte_of_not_upper hb]
  | true =>
    have hrange := (isUpperByte_iff b).mp hb
    rw [lowerByte_of_upper hb]
    simp only [UInt8.le_iff_toNat_le, UInt8.toNat_add, UInt8.reduceToNat]
    omega

end ByteString

end ExecContext
