import ExecContext.Proofs.Value.Number

/-!
# Comparing values

Equal values are of one kind, and within a kind they are identical, but for the two zeros among the
floats.  Kinds and the names of types tell the same apart.

Main results:

- Theorem `Value.tag_eq_iff`: the name of its type tells the kind of a value.
- Theorem `Value.equals_and_ne_iff`: values that are equal without being identical.
- Theorem `Value.equality_within_kinds`: equality is a partial equivalence that is finer than the
  kinds.
-/

namespace ExecContext

/-! ## Kinds -/

theorem Tag.typeName_inj {s t : Tag} : s.typeName = t.typeName ↔ s = t := by
  cases s <;> cases t <;> simp [typeName]

namespace Value

/-- The name of its type tells the kind of a value. -/
theorem tag_eq_iff (v w : Value) : v.tag = w.tag ↔ v.typeName = w.typeName :=
  Tag.typeName_inj.symm

theorem isNull_iff (v : Value) : v.isNull = true ↔ v.tag = .null := by
  cases v <;> simp [isNull, tag]

/-- NaNs are the floats whose bits, without the sign, are greater than those of an infinity. -/
theorem isNaN_iff (v : Value) :
    v.isNaN = true ↔ ∃ x, v = .float x ∧ 0x7FF0000000000000 < x.bits.toNat % 2 ^ 63 := by
  cases v with
  | float x => simp [isNaN, Binary64.isNaN_iff]
  | null | bool | int | string => simp [isNaN]

/-! ## Equality -/

/-- Values that are equal without being identical are zeros of opposite sign. -/
theorem equals_and_ne_iff (v w : Value) :
    v.equals w = true ∧ v ≠ w ↔
      ∃ x y, v = .float x ∧ w = .float y ∧ x.isZero = true ∧ y.isZero = true ∧
        x.isNegative ≠ y.isNegative := by
  rw [equals_iff]
  constructor
  · rintro ⟨⟨rfl, -⟩ | ⟨x, y, rfl, rfl, hx, hy⟩, hne⟩
    · contradiction
    · refine ⟨x, y, rfl, rfl, hx, hy, ?_⟩
      intro hsign
      rcases (Binary64.isZero_iff x).mp hx with ⟨hexponent, hfraction⟩
      rcases (Binary64.isZero_iff y).mp hy with ⟨hexponent', hfraction'⟩
      rw [Binary64.ext_fields hsign (hexponent.trans hexponent'.symm)
        (hfraction.trans hfraction'.symm)] at hne
      contradiction
  · rintro ⟨x, y, rfl, rfl, hx, hy, hsign⟩
    refine ⟨Or.inr ⟨x, y, rfl, rfl, hx, hy⟩, ?_⟩
    intro heq
    rw [float.inj heq] at hsign
    contradiction

/-- How the values `u`, `v` and `w` compare. -/
structure ComparedWithinKinds (u v w : Value) : Prop where
  symmetric : u.equals v = true → v.equals u = true
  transitive : u.equals v = true → v.equals w = true → u.equals w = true
  /-- A value equals itself unless it is a NaN, with whatever sign and fraction. -/
  self_iff : u.equals u = true ↔
    ¬ ∃ x, u = .float x ∧ 0x7FF0000000000000 < x.bits.toNat % 2 ^ 63
  /-- Equal values are of one kind. -/
  ofOneKind : u.equals v = true → u.tag = v.tag ∧ u.typeName = v.typeName ∧ u.isNull = v.isNull
  /-- They are identical, unless they are zeros of opposite sign. -/
  apart_iff : u.equals v = true ∧ u ≠ v ↔
    ∃ x y, u = .float x ∧ v = .float y ∧ x.isZero = true ∧ y.isZero = true ∧
      x.isNegative ≠ y.isNegative
  /-- Floats are equal exactly if they stand for the same number or infinity, -/
  float_iff : ∀ x y, u = .float x → v = .float y →
    (u.equals v = true ↔ ∃ r, x.number? = some r ∧ y.number? = some r)
  /-- but an integer is equal to no float, not even to one that stands for it. -/
  int_float : ∀ n x, u = .int n → v = .float x → u.equals v = false ∧ v.equals u = false
  /-- Kinds are the same exactly if their names are. -/
  tag_iff : u.tag = v.tag ↔ u.typeName = v.typeName

/-- Equality is a partial equivalence, within the kinds of values. -/
theorem equality_within_kinds (u v w : Value) : ComparedWithinKinds u v w where
  symmetric := by
    intro h
    rw [equals_comm, h]
  transitive := equals_trans
  self_iff := by
    rw [equals_self, ← isNaN_iff, Bool.not_eq_true', Bool.not_eq_true]
  ofOneKind := by
    intro h
    have htag := tag_eq_of_equals h
    refine ⟨htag, (tag_eq_iff u v).mp htag, ?_⟩
    rw [Bool.eq_iff_iff, isNull_iff, isNull_iff, htag]
  apart_iff := equals_and_ne_iff u v
  float_iff := by
    rintro x y rfl rfl
    exact Binary64.equals_iff_number? x y
  int_float := by
    rintro n x rfl rfl
    exact ⟨rfl, rfl⟩
  tag_iff := tag_eq_iff u v

/-- A NaN with its sign set is still not equal to itself. -/
example : (float ⟨0xFFF8000000000000⟩).equals (.float ⟨0xFFF8000000000000⟩) = false := by decide

end Value

end ExecContext
