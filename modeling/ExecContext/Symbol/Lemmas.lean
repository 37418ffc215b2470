import ExecContext.Symbol.Registry
import ExecContext.Table.Lemmas

/-!
# Laws of symbol registries

What declarations and changes in place do to the lookups.

Main results:

- Theorem `Registry.lookupClass_declareClass`: a declared class is found under every
  spelling of its name, and under no other name does anything change.
- Theorem `Registry.lookupClass_updateClass`: a change in place is seen under every
  spelling.
- Theorem `Registry.classes_updateClass`: it changes the one class in its place.
- Theorem `Registry.updateClass_of_absent`: without the class nothing changes.
-/

namespace ExecContext

namespace Registry

variable {φ α : Type}

/-- A class is found under every spelling of its name. -/
theorem lookupClass_declareClass (r : Registry φ) (c : ClassDecl φ) (name : ByteString) :
    (r.declareClass c).state.lookupClass name =
      if name.lower = c.name.lower then some c else r.lookupClass name :=
  Table.get?_insert r.classes c.name.lower name.lower c

@[simp]
theorem lookupClass_declareFunction (r : Registry φ) (f : Shared FunctionDecl)
    (name : ByteString) :
    (r.declareFunction f).state.lookupClass name = r.lookupClass name :=
  rfl

@[simp]
theorem lookupFunction_declareClass (r : Registry φ) (c : ClassDecl φ) (name : ByteString) :
    (r.declareClass c).state.lookupFunction name = r.lookupFunction name :=
  rfl

/-- Without the class a change in place does nothing. -/
theorem updateClass_of_absent {r : Registry φ} {name : ByteString}
    (act : ClassDecl φ → Outcome (ClassDecl φ) α) (h : r.lookupClass name = none) :
    r.updateClass name act = { answer := none, state := r } := by
  simp [updateClass, h]

/-- With the class, the act's outcome is stored in the place of the class. -/
theorem updateClass_of_found {r : Registry φ} {name : ByteString} {c : ClassDecl φ}
    (act : ClassDecl φ → Outcome (ClassDecl φ) α) (h : r.lookupClass name = some c) :
    r.updateClass name act = (act c).map some fun c' =>
      { r with classes := r.classes.modify name.lower fun _ => c' } := by
  simp [updateClass, h]

/-- A change in place leaves the functions alone. -/
@[simp]
theorem functions_updateClass (r : Registry φ) (name : ByteString)
    (act : ClassDecl φ → Outcome (ClassDecl φ) α) :
    (r.updateClass name act).state.functions = r.functions := by
  cases h : r.lookupClass name <;> simp [updateClass, h]

/-- To the classes it does what the act does to the class of the name. -/
theorem classes_updateClass (r : Registry φ) (name : ByteString)
    (act : ClassDecl φ → Outcome (ClassDecl φ) α) :
    (r.updateClass name act).state.classes =
      r.classes.modify name.lower fun c => (act c).state := by
  cases h : r.lookupClass name with
  | none =>
    have habsent : r.classes.contains name.lower = false := by
      rw [Table.contains, ← lookupClass, h, Option.isSome_none]
    rw [updateClass_of_absent act h, Table.modify_of_not_contains _ habsent]
  | some c =>
    have hsame : r.classes.modify name.lower (fun _ => (act c).state) =
        r.classes.modify name.lower fun d => (act d).state := by
      apply Table.modify_congr
      intro d hd
      rw [Option.some.inj (h.symm.trans hd)]
    rw [updateClass_of_found act h]
    exact hsame

/-- A change in place is seen under every spelling of the name. -/
theorem lookupClass_updateClass {r : Registry φ} {name : ByteString} {c : ClassDecl φ}
    (act : ClassDecl φ → Outcome (ClassDecl φ) α) (h : r.lookupClass name = some c)
    (other : ByteString) :
    (r.updateClass name act).state.lookupClass other =
      if other.lower = name.lower then some (act c).state else r.lookupClass other := by
  have hg : r.classes.get? name.lower = some c := h
  rw [updateClass_of_found act h]
  change (r.classes.modify name.lower fun _ => (act c).state).get? other.lower = _
  rw [Table.get?_modify]
  split
  · rename_i ho
    rw [ho, hg, Option.map_some]
  · rfl

end Registry

end ExecContext
