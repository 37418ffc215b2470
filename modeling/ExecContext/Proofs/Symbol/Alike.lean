import ExecContext.Proofs.Symbol.Copies
import ExecContext.Proofs.Symbol.History

/-!
# Registries that cannot be told apart

Registries are alike if every name finds the same in both.  They need not have been filled in
the same order, but no step tells them apart, as the names are counted and listed in bytewise
order; and every step keeps them alike.

Main results:

- Theorem `Registry.Alike.toReply_step`: registries that are alike reply alike.
- Theorem `Registry.Alike.step`: every step keeps registries alike.
- Theorem `Registry.Alike.run`: no run tells registries apart that are alike.
-/

namespace ExecContext

namespace Registry

variable {φ : Type}

/-- A key that is held under its folded name is held wherever every name finds the same. -/
theorem mem_names_of_finds {α : Type} {written : α → ByteString} {t u : Table α}
    (keyed : t.KeyedBy written) (finds : ∀ name : ByteString, t.get? name.lower = u.get? name.lower)
    {key : ByteString} (h : key ∈ t.names) : key ∈ u.names := by
  have hkey := finds key
  rw [keyed.folded key h] at hkey
  rw [← Table.contains_eq_true_iff, Table.contains, ← hkey]
  exact (Table.contains_eq_true_iff t key).mpr h

/-- In both registries every entry lies under its own name, and every name finds the same. -/
structure Alike (r q : Registry φ) : Prop where
  left : r.Keyed
  right : q.Keyed
  functions : ∀ name, r.lookupFunction name = q.lookupFunction name
  classes : ∀ name, r.lookupClass name = q.lookupClass name

namespace Alike

variable {r q p : Registry φ}

theorem refl (h : r.Keyed) : r.Alike r :=
  ⟨h, h, fun _ => rfl, fun _ => rfl⟩

theorem symm (h : r.Alike q) : q.Alike r :=
  ⟨h.right, h.left, fun name => (h.functions name).symm, fun name => (h.classes name).symm⟩

theorem trans (h : r.Alike q) (h' : q.Alike p) : r.Alike p where
  left := h.left
  right := h'.right
  functions name := (h.functions name).trans (h'.functions name)
  classes name := (h.classes name).trans (h'.classes name)

/-! ## What is counted and listed -/

theorem mem_names_functions_iff (h : r.Alike q) (key : ByteString) :
    key ∈ r.functions.names ↔ key ∈ q.functions.names :=
  ⟨mem_names_of_finds ((keyed_iff r).mp h.left).1 h.functions,
    mem_names_of_finds ((keyed_iff q).mp h.right).1 h.symm.functions⟩

theorem mem_names_classes_iff (h : r.Alike q) (key : ByteString) :
    key ∈ r.classes.names ↔ key ∈ q.classes.names :=
  ⟨mem_names_of_finds ((keyed_iff r).mp h.left).2 h.classes,
    mem_names_of_finds ((keyed_iff q).mp h.right).2 h.symm.classes⟩

/-- Registries that are alike count the same. -/
theorem counts (h : r.Alike q) :
    r.functionCount = q.functionCount ∧ r.classCount = q.classCount :=
  ⟨Table.size_eq_of_mem_names_iff h.mem_names_functions_iff,
    Table.size_eq_of_mem_names_iff h.mem_names_classes_iff⟩

/-- Registries that are alike list the same names. -/
theorem names (h : r.Alike q) :
    r.functionNames = q.functionNames ∧ r.classNames = q.classNames :=
  ⟨Table.sortedNames_eq_of_mem_names_iff h.mem_names_functions_iff,
    Table.sortedNames_eq_of_mem_names_iff h.mem_names_classes_iff⟩

/-! ## Steps -/

variable [FilterRule φ]

/-- A step on functions and classes is answered and reported alike. -/
theorem toReply_symbolStep (h : r.Alike q) (s : SymbolStep φ) :
    (r.symbolStep s).toReply = (q.symbolStep s).toReply := by
  cases s with
  | declareFunction f =>
    simp only [symbolStep, declareFunction, Outcome.map, h.functions]
  | declareClass c => simp only [symbolStep, declareClass, Outcome.map, h.classes]
  | lookupFunction name => simp only [symbolStep, h.functions]
  | lookupClass name => simp only [symbolStep, h.classes]
  | hasFunction name =>
    have hfound : r.hasFunction name = q.hasFunction name :=
      congrArg Option.isSome (h.functions name)
    simp only [symbolStep, hfound]
  | hasClass name =>
    have hfound : r.hasClass name = q.hasClass name := congrArg Option.isSome (h.classes name)
    simp only [symbolStep, hfound]
  | counts => simp only [symbolStep, h.counts.1, h.counts.2]
  | functionNames => simp only [symbolStep, h.names.1]
  | classNames => simp only [symbolStep, h.names.2]
  | updateClass name s =>
    cases hfound : q.lookupClass name <;>
      simp [symbolStep, updateClass, Outcome.map, h.classes, hfound]
  | runsConstructor name => simp only [symbolStep, runsConstructor, h.functions, h.classes]

/-- Registries that are alike reply alike. -/
theorem toReply_step (h : r.Alike q) (i : RegistryStep φ) :
    (r.step i).toReply = (q.step i).toReply := by
  cases i with
  | symbol s => exact h.toReply_symbolStep s
  | redeclareCopy name s =>
    cases hfound : q.lookupClass name <;>
      simp [Registry.step, redeclareCopy, declareClass, Outcome.map, h.classes, hfound]

/-- A step on functions and classes keeps registries alike. -/
theorem symbolStep (h : r.Alike q) (s : SymbolStep φ) :
    (r.symbolStep s).state.Alike (q.symbolStep s).state where
  left := keyed_symbolStep h.left s
  right := keyed_symbolStep h.right s
  functions name := by
    have hr := (functionCell name).find_step r s
    have hq := (functionCell name).find_step q s
    rw [hr, hq, h.functions]
  classes name := by
    have hr := (classCell name).find_step r s
    have hq := (classCell name).find_step q s
    rw [hr, hq, h.classes]

/-- Every step keeps registries alike. -/
theorem step (h : r.Alike q) (i : RegistryStep φ) : (r.step i).state.Alike (q.step i).state := by
  rw [state_step_inPlace h.left, state_step_inPlace h.right]
  exact h.symbolStep i.inPlace

/-- No run tells registries apart that are alike, and it leaves them alike. -/
theorem run (h : r.Alike q) (is : List (RegistryStep φ)) :
    (run Registry.step r is).1 = (run Registry.step q is).1 ∧
      (run Registry.step r is).2.Alike (run Registry.step q is).2 :=
  run_related (P := fun _ => True) (fun _ _ i _ halike => ⟨halike.toReply_step i, halike.step i⟩) h
    fun _ _ => trivial

end Alike

end Registry

end ExecContext
