import ExecContext.Proofs.Value.Equality
import Mathlib.Algebra.Field.Rat
import Mathlib.Algebra.Order.Field.Basic
import Mathlib.Algebra.Order.Ring.Rat
import Mathlib.Tactic.Ring

/-!
# Floats as numbers

A float that is no NaN stands for a rational number or for an infinity.  Different floats stand
for different numbers but for the two zeros, and so equality of floats, which is a comparison of
bits, is equality of the numbers that they stand for.

The magnitude of a finite float is a multiple of the least positive float.  Counted in that unit
it is a natural number, and of two floats the one with the greater exponent has the greater count.

Main results:

- Theorem `Binary64.magnitude_inj`: the magnitude tells the exponent and the fraction.
- Theorem `Binary64.eq_or_isZero_of_number?_eq`: the number tells the float, zeros apart.
- Theorem `Binary64.equals_iff_number?`: equal floats are those that stand for one number.
-/

namespace ExecContext

namespace Binary64

/-! ## The fields as numbers -/

/-- Whether the sign bit is set. -/
def isNegative (x : Binary64) : Bool :=
  0x8000000000000000 ≤ x.bits

theorem toNat_exponent (x : Binary64) : x.exponent.toNat = x.bits.toNat / 2 ^ 52 % 2 ^ 11 := by
  rw [exponent, UInt64.toNat_and, UInt64.toNat_shiftRight, Nat.shiftRight_eq_div_pow]
  exact Nat.and_two_pow_sub_one_eq_mod _ 11

theorem toNat_fraction (x : Binary64) : x.fraction.toNat = x.bits.toNat % 2 ^ 52 := by
  rw [fraction, UInt64.toNat_and]
  exact Nat.and_two_pow_sub_one_eq_mod _ 52

theorem isNegative_iff (x : Binary64) : x.isNegative = true ↔ 2 ^ 63 ≤ x.bits.toNat := by
  rw [isNegative, decide_eq_true_eq, UInt64.le_iff_toNat_le]
  rfl

theorem toNat_fraction_lt (x : Binary64) : x.fraction.toNat < 2 ^ 52 := by
  rw [toNat_fraction]
  exact Nat.mod_lt _ (by decide)

/-- A float is its sign, its exponent and its fraction. -/
theorem ext_fields {x y : Binary64} (hsign : x.isNegative = y.isNegative)
    (hexponent : x.exponent = y.exponent) (hfraction : x.fraction = y.fraction) : x = y := by
  rcases x with ⟨a⟩
  rcases y with ⟨b⟩
  rw [Bool.eq_iff_iff, isNegative_iff, isNegative_iff] at hsign
  rw [← UInt64.toNat_inj, toNat_exponent, toNat_exponent] at hexponent
  rw [← UInt64.toNat_inj, toNat_fraction, toNat_fraction] at hfraction
  have ha := a.toNat_lt
  have hb := b.toNat_lt
  rw [mk.injEq, ← UInt64.toNat_inj]
  dsimp only at hsign hexponent hfraction
  omega

/-- A NaN has greater bits than an infinity of its sign. -/
theorem isNaN_iff (x : Binary64) :
    x.isNaN = true ↔ 0x7FF0000000000000 < x.bits.toNat % 2 ^ 63 := by
  have hexponent := toNat_exponent x
  have hfraction := toNat_fraction x
  simp only [isNaN, Bool.and_eq_true, beq_iff_eq, bne_iff_ne, ne_eq, ← UInt64.toNat_inj,
    UInt64.reduceToNat]
  omega

/-- A zero has neither exponent nor fraction. -/
theorem isZero_iff (x : Binary64) : x.isZero = true ↔ x.exponent = 0 ∧ x.fraction = 0 := by
  have hexponent := toNat_exponent x
  have hfraction := toNat_fraction x
  have hlt := x.bits.toNat_lt
  simp only [isZero, Bool.or_eq_true, beq_iff_eq, ← UInt64.toNat_inj, UInt64.reduceToNat]
  omega

/-! ## Magnitudes -/

/-- The absolute value of a finite float: its fraction after the point, and before the point a one,
which only the least exponent lacks. -/
def magnitude (x : Binary64) : ℚ :=
  if x.exponent = 0 then x.fraction.toNat / 2 ^ 52 * 2 ^ (-1022 : ℤ)
  else (1 + x.fraction.toNat / 2 ^ 52) * 2 ^ ((x.exponent.toNat : ℤ) - 1023)

/-- The magnitude of the least positive float. -/
def leastPositive : ℚ :=
  2 ^ (-1074 : ℤ)

theorem leastPositive_pos : 0 < leastPositive :=
  zpow_pos two_pos _

/-- How many times the least positive float goes into the magnitude. -/
def units (x : Binary64) : Nat :=
  if x.exponent = 0 then x.fraction.toNat
  else (2 ^ 52 + x.fraction.toNat) * 2 ^ (x.exponent.toNat - 1)

theorem toNat_exponent_pos {x : Binary64} (h : ¬ x.exponent = 0) : 0 < x.exponent.toNat := by
  rw [← UInt64.toNat_inj] at h
  exact Nat.pos_of_ne_zero h

/-- A magnitude is a multiple of the least positive one. -/
theorem magnitude_eq (x : Binary64) : x.magnitude = x.units * leastPositive := by
  have hunit : (2 : ℚ) ^ (-1022 : ℤ) = 2 ^ 52 * leastPositive := by
    rw [leastPositive, ← zpow_natCast, ← zpow_add₀ two_ne_zero]
    rfl
  unfold magnitude units
  split
  · rw [hunit]
    ring
  · rename_i hexponent
    have hpos := toNat_exponent_pos hexponent
    have hscale : (x.exponent.toNat : ℤ) - 1023 = (x.exponent.toNat - 1 : ℕ) + (-1022 : ℤ) := by
      omega
    rw [hscale, zpow_add₀ two_ne_zero, hunit, zpow_natCast]
    push_cast
    ring

theorem units_lt (x : Binary64) : x.units < 2 ^ (52 + x.exponent.toNat) := by
  have hfraction := toNat_fraction_lt x
  unfold units
  split
  · rename_i hexponent
    rw [hexponent]
    exact hfraction
  · rename_i hexponent
    have hpos := toNat_exponent_pos hexponent
    -- with the one before the point the fraction stays below two
    have hsplit : 2 ^ (52 + x.exponent.toNat) = 2 ^ 53 * 2 ^ (x.exponent.toNat - 1) := by
      rw [← Nat.pow_add]
      congr 1
      omega
    rw [hsplit]
    exact Nat.mul_lt_mul_of_pos_right (by omega) (Nat.two_pow_pos _)

theorem le_units {x : Binary64} (h : 0 < x.exponent.toNat) :
    2 ^ (52 + (x.exponent.toNat - 1)) ≤ x.units := by
  have hexponent : ¬ x.exponent = 0 := by
    intro hzero
    rw [hzero] at h
    exact Nat.lt_irrefl 0 h
  rw [units, if_neg hexponent, Nat.pow_add]
  exact Nat.mul_le_mul_right _ (Nat.le_add_right _ _)

/-- The greater exponent has the greater magnitude. -/
theorem units_lt_units {x y : Binary64} (h : x.exponent.toNat < y.exponent.toNat) :
    x.units < y.units := by
  calc x.units < 2 ^ (52 + x.exponent.toNat) := units_lt x
    _ ≤ 2 ^ (52 + (y.exponent.toNat - 1)) := Nat.pow_le_pow_right two_pos (by omega)
    _ ≤ y.units := le_units (by omega)

/-- The count tells the exponent and the fraction. -/
theorem units_inj {x y : Binary64} (h : x.units = y.units) :
    x.exponent = y.exponent ∧ x.fraction = y.fraction := by
  have hexponent : x.exponent = y.exponent := by
    rw [← UInt64.toNat_inj]
    rcases Nat.lt_trichotomy x.exponent.toNat y.exponent.toNat with hlt | heq | hlt
    · exact absurd h (Nat.ne_of_lt (units_lt_units hlt))
    · exact heq
    · exact absurd h.symm (Nat.ne_of_lt (units_lt_units hlt))
  refine ⟨hexponent, ?_⟩
  rw [← UInt64.toNat_inj]
  unfold units at h
  rw [hexponent] at h
  split at h
  · exact h
  · exact Nat.add_left_cancel (Nat.eq_of_mul_eq_mul_right (Nat.two_pow_pos _) h)

theorem magnitude_nonneg (x : Binary64) : 0 ≤ x.magnitude := by
  rw [magnitude_eq]
  exact mul_nonneg (Nat.cast_nonneg _) leastPositive_pos.le

theorem magnitude_inj {x y : Binary64} (h : x.magnitude = y.magnitude) :
    x.exponent = y.exponent ∧ x.fraction = y.fraction := by
  rw [magnitude_eq, magnitude_eq] at h
  exact units_inj (Nat.cast_injective (mul_right_cancel₀ leastPositive_pos.ne' h))

/-- Only zeros have no magnitude. -/
theorem magnitude_eq_zero_iff (x : Binary64) : x.magnitude = 0 ↔ x.isZero = true := by
  rw [isZero_iff]
  constructor
  · intro h
    have hzero : (⟨0⟩ : Binary64).magnitude = 0 := by simp [magnitude_eq, units, exponent, fraction]
    exact magnitude_inj (h.trans hzero.symm)
  · rintro ⟨hexponent, hfraction⟩
    rw [magnitude, if_pos hexponent, hfraction]
    simp

/-! ## Numbers -/

/-- What floats stand for. -/
inductive Number where
  | finite (q : ℚ)
  | infinite (negative : Bool)

/-- The rational number that a finite float stands for. -/
def rational (x : Binary64) : ℚ :=
  if x.isNegative then -x.magnitude else x.magnitude

/-- What a float stands for, which is nothing if it is a NaN. -/
def number? (x : Binary64) : Option Number :=
  if x.exponent = 0x7FF then
    if x.fraction = 0 then some (.infinite x.isNegative) else none
  else some (.finite x.rational)

/-- NaNs stand for nothing. -/
theorem number?_eq_none_iff (x : Binary64) : x.number? = none ↔ x.isNaN = true := by
  unfold number? isNaN
  split <;> simp [*]

/-- A float that stands for something is an infinity or finite. -/
theorem number?_cases {x : Binary64} {v : Number} (h : x.number? = some v) :
    (x.exponent = 0x7FF ∧ x.fraction = 0 ∧ v = .infinite x.isNegative) ∨
      v = .finite x.rational := by
  unfold number? at h
  split at h
  · rename_i hexponent
    split at h
    · rename_i hfraction
      exact Or.inl ⟨hexponent, hfraction, (Option.some.inj h).symm⟩
    · cases h
  · exact Or.inr (Option.some.inj h).symm

/-- Both zeros stand for zero. -/
theorem number?_of_isZero {x : Binary64} (h : x.isZero = true) : x.number? = some (.finite 0) := by
  have hexponent : ¬ x.exponent = 0x7FF := by
    rw [((isZero_iff x).mp h).1]
    decide
  rw [number?, if_neg hexponent, rational, (magnitude_eq_zero_iff x).mpr h, neg_zero, ite_self]

theorem abs_rational (x : Binary64) : |x.rational| = x.magnitude := by
  unfold rational
  split
  · rw [abs_neg, abs_of_nonneg (magnitude_nonneg x)]
  · rw [abs_of_nonneg (magnitude_nonneg x)]

/-- Different floats stand for different rational numbers, but for the zeros. -/
theorem eq_or_isZero_of_rational_eq {x y : Binary64} (h : x.rational = y.rational) :
    x = y ∨ x.isZero = true ∧ y.isZero = true := by
  have hmagnitude : x.magnitude = y.magnitude := by
    rw [← abs_rational, h, abs_rational]
  rcases magnitude_inj hmagnitude with ⟨hexponent, hfraction⟩
  by_cases hsign : x.isNegative = y.isNegative
  · exact Or.inl (ext_fields hsign hexponent hfraction)
  · -- only zero is the same number with either sign
    have hopposite : x.isNegative = !y.isNegative := Bool.eq_not_of_ne hsign
    have hzero : x.magnitude = 0 := by
      rw [rational, rational, ← hmagnitude, hopposite] at h
      cases hy : y.isNegative with
      | false => exact neg_eq_self.mp (by simpa [hy] using h)
      | true => exact self_eq_neg.mp (by simpa [hy] using h)
    rw [← magnitude_eq_zero_iff, ← magnitude_eq_zero_iff, ← hmagnitude]
    exact Or.inr ⟨hzero, hzero⟩

/-- Different floats stand for different numbers, but for the zeros. -/
theorem eq_or_isZero_of_number?_eq {x y : Binary64} {v : Number}
    (hx : x.number? = some v) (hy : y.number? = some v) :
    x = y ∨ x.isZero = true ∧ y.isZero = true := by
  rcases number?_cases hx with ⟨hexponent, hfraction, rfl⟩ | rfl
  · rcases number?_cases hy with ⟨hexponent', hfraction', hv⟩ | hv
    · left
      exact ext_fields (Number.infinite.inj hv) (hexponent.trans hexponent'.symm)
        (hfraction.trans hfraction'.symm)
    · cases hv
  · rcases number?_cases hy with ⟨-, -, hv⟩ | hv
    · cases hv
    · exact eq_or_isZero_of_rational_eq (Number.finite.inj hv)

/-- Floats are equal exactly if they stand for the same number or infinity. -/
theorem equals_iff_number? (x y : Binary64) :
    x.equals y = true ↔ ∃ v, x.number? = some v ∧ y.number? = some v := by
  rw [equals_iff]
  constructor
  · rintro (⟨rfl, hx⟩ | ⟨hx, hy⟩)
    · have hsome : x.number? ≠ none := by
        rw [ne_eq, number?_eq_none_iff, hx]
        decide
      rcases Option.ne_none_iff_exists'.mp hsome with ⟨v, hv⟩
      exact ⟨v, hv, hv⟩
    · exact ⟨_, number?_of_isZero hx, number?_of_isZero hy⟩
  · rintro ⟨v, hx, hy⟩
    rcases eq_or_isZero_of_number?_eq hx hy with rfl | hzero
    · left
      refine ⟨rfl, ?_⟩
      rw [Bool.eq_false_iff, ne_eq, ← number?_eq_none_iff, hx]
      exact Option.some_ne_none v
    · exact Or.inr hzero

/-- One and a half, below zero. -/
example : (⟨0xBFF8000000000000⟩ : Binary64).number? = some (.finite (-3 / 2)) := by cbv

end Binary64

end ExecContext
