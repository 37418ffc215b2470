import ExecContext.Proofs.Constant.Meaning
import ExecContext.Proofs.Table.Names

/-!
# Constant tables that cannot be told apart

Constant tables are alike if every name is stored alike in both.  The order in which they were
filled does not show: no step tells them apart, and every step keeps them alike.

Main results:

- Theorem `ConstantTable.Alike.size`: tables that are alike are equally large.
- Theorem `ConstantTable.Alike.answer_step`: tables that are alike answer alike.
- Theorem `ConstantTable.Alike.step`: every step keeps tables alike.
-/

namespace ExecContext

namespace ConstantTable

/-- Both tables store the same under every name. -/
def Alike (t u : ConstantTable) : Prop :=
  ∀ name, t.stored.get? name = u.stored.get? name

namespace Alike

variable {t u : ConstantTable}

theorem contains (h : t.Alike u) (name : ByteString) :
    t.stored.contains name = u.stored.contains name :=
  congrArg Option.isSome (h name)

/-- Tables that are alike give every name the same meaning. -/
theorem resolve (h : t.Alike u) (name : ByteString) : t.resolve name = u.resolve name := by
  simp only [ConstantTable.resolve, h name]

theorem isDefined (h : t.Alike u) (name : ByteString) : t.isDefined name = u.isDefined name := by
  simp only [ConstantTable.isDefined, h.contains name]

/-- Tables that are alike are equally large. -/
theorem size (h : t.Alike u) : t.size = u.size := by
  apply Table.size_eq_of_mem_names_iff
  intro name
  rw [← Table.contains_eq_true_iff, ← Table.contains_eq_true_iff, h.contains]

/-- They are still alike when the same is stored in both. -/
theorem insert (h : t.Alike u) (name : ByteString) (v : Value) :
    Alike ⟨t.stored.insert name v⟩ ⟨u.stored.insert name v⟩ := by
  intro other
  rw [Table.get?_insert, Table.get?_insert, h other]

/-- A declaration ends alike in tables that are alike, and leaves them alike. -/
theorem declare (h : t.Alike u) (name : ByteString) (v : Value) :
    (∃ e, t.declare name v = .error e ∧ u.declare name v = .error e) ∨
      t.declare name v = .ok ⟨t.stored.insert name v⟩ ∧
        u.declare name v = .ok ⟨u.stored.insert name v⟩ := by
  cases hk : Keyword.parse name with
  | some k => exact .inl ⟨_, declare_of_keyword v hk, declare_of_keyword v hk⟩
  | none =>
    cases hs : u.stored.contains name with
    | true =>
      have ht : t.stored.contains name = true := (h.contains name).trans hs
      exact .inl ⟨_, declare_of_stored v hk ht, declare_of_stored v hk hs⟩
    | false =>
      have ht : t.stored.contains name = false := (h.contains name).trans hs
      exact .inr ⟨declare_of_new v hk ht, declare_of_new v hk hs⟩

/-- Tables that are alike answer alike. -/
theorem answer_step (h : t.Alike u) (i : ConstantStep) : (t.step i).answer = (u.step i).answer := by
  cases i with
  | resolve name => simp only [ConstantTable.step, h.resolve]
  | isDefined name => simp only [ConstantTable.step, h.isDefined]
  | declare name v =>
    rcases h.declare name v with ⟨e, ht, hu⟩ | ⟨ht, hu⟩ <;> simp only [ConstantTable.step, ht, hu]

/-- Every step keeps tables alike. -/
theorem step (h : t.Alike u) (i : ConstantStep) : (t.step i).state.Alike (u.step i).state := by
  cases i with
  | resolve name | isDefined name => exact h
  | declare name v =>
    rcases h.declare name v with ⟨e, ht, hu⟩ | ⟨ht, hu⟩
    · simp only [ConstantTable.step, ht, hu]
      exact h
    · simp only [ConstantTable.step, ht, hu]
      exact h.insert name v

end Alike

end ConstantTable

end ExecContext
