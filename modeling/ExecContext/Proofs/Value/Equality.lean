import ExecContext.Value.Basic

/-!
# Equality of values

Equality as programs see it differs from identity in two places, both among floats: a NaN is equal
to nothing, itself included, and the two zeros are equal to one another.  It is symmetric and
transitive all the same.

Main results:

- Theorems `Binary64.equals_iff` and `Value.equals_iff`: equal values are identical or zeros.
- Theorems `Value.equals_comm` and `Value.equals_trans`: equality is symmetric and transitive.
-/

namespace ExecContext

namespace Binary64

/-- No zero is a NaN. -/
theorem isNaN_of_isZero {x : Binary64} (h : x.isZero = true) : x.isNaN = false := by
  rcases x with ⟨bits⟩
  simp only [isZero, Bool.or_eq_true, beq_iff_eq] at h
  rcases h with rfl | rfl <;> rfl

/-- Floats are equal if they are identical and no NaN, or if both are zeros. -/
theorem equals_iff (x y : Binary64) :
    x.equals y = true ↔ x = y ∧ x.isNaN = false ∨ x.isZero = true ∧ y.isZero = true := by
  simp only [equals, Bool.and_eq_true, Bool.or_eq_true, Bool.not_eq_true', beq_iff_eq]
  constructor
  · rintro ⟨⟨hx, -⟩, rfl | hzero⟩
    · exact Or.inl ⟨rfl, hx⟩
    · exact Or.inr hzero
  · rintro (⟨rfl, hx⟩ | ⟨hx, hy⟩)
    · exact ⟨⟨hx, hx⟩, Or.inl rfl⟩
    · exact ⟨⟨isNaN_of_isZero hx, isNaN_of_isZero hy⟩, Or.inr ⟨hx, hy⟩⟩

end Binary64

namespace Value

/-- Values are equal if they are identical and no NaN, or if both are float zeros. -/
theorem equals_iff (v w : Value) :
    v.equals w = true ↔ v = w ∧ v.isNaN = false ∨
      ∃ x y, v = .float x ∧ w = .float y ∧ x.isZero = true ∧ y.isZero = true := by
  cases v <;> cases w <;> simp [equals, isNaN, Binary64.equals_iff]

theorem equals_comm (v w : Value) : v.equals w = w.equals v := by
  cases v <;> cases w <;> simp [equals, Bool.beq_comm, Binary64.equals_comm]

theorem equals_trans {u v w : Value} (huv : u.equals v = true) (hvw : v.equals w = true) :
    u.equals w = true := by
  rw [equals_iff] at huv hvw ⊢
  rcases huv with ⟨rfl, -⟩ | ⟨x, y, rfl, rfl, hx, hy⟩
  · exact hvw
  · right
    rcases hvw with ⟨rfl, -⟩ | ⟨y', z, hy', rfl, -, hz⟩
    · exact ⟨x, y, rfl, rfl, hx, hy⟩
    · exact ⟨x, z, rfl, rfl, hx, hz⟩

end Value

end ExecContext
