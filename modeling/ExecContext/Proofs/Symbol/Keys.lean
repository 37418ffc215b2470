import ExecContext.Proofs.Symbol.Effects

/-!
# Keys of symbol registries

Every function and every class lies under its own name, folded to lower case.  The
name of a class cannot change, so this survives changes in place as well as
declarations.

Main results:

- Theorems `Table.KeyedBy.insert` and `Table.KeyedBy.modify`: what keeps entries under their names.
- Theorem `Registry.keyed_step`: every step keeps entries under their names.
- Theorem `Registry.keyed_run`: so does every run.
-/

namespace ExecContext

variable {φ α : Type}

/-! ## Tables keyed by names -/

namespace Table

/-- Every entry lies under its own folded name. -/
def KeyedBy (name : α → ByteString) (t : Table α) : Prop :=
  ∀ key a, t.get? key = some a → (name a).lower = key

namespace KeyedBy

variable {name : α → ByteString} {t : Table α}

theorem empty : (empty : Table α).KeyedBy name := by
  intro key a ha
  cases ha

/-- The keys are folded. -/
theorem folded (h : t.KeyedBy name) : ∀ key ∈ t.names, key.lower = key := by
  intro key hkey
  rw [← contains_eq_true_iff] at hkey
  rcases Option.isSome_iff_exists.mp hkey with ⟨a, ha⟩
  rw [← h key a ha, ByteString.lower_lower]

/-- An entry may be written under its own name, -/
theorem insert (h : t.KeyedBy name) (a : α) : (t.insert (name a).lower a).KeyedBy name := by
  intro key b hb
  rw [get?_insert] at hb
  by_cases hkey : key = (name a).lower
  · rw [if_pos hkey] at hb
    cases hb
    exact hkey.symm
  · rw [if_neg hkey] at hb
    exact h key b hb

/-- and changed as long as it keeps its name. -/
theorem modify (h : t.KeyedBy name) (key : ByteString) {f : α → α}
    (hf : ∀ a, name (f a) = name a) : (t.modify key f).KeyedBy name := by
  intro other b hb
  rw [get?_modify] at hb
  by_cases hother : other = key
  · rw [if_pos hother] at hb
    rcases Option.map_eq_some_iff.mp hb with ⟨a, ha, rfl⟩
    rw [hf]
    exact h other a ha
  · rw [if_neg hother] at hb
    exact h other b hb

end KeyedBy

end Table

/-! ## Registries -/

namespace Registry

/-- Every entry lies under its own folded name. -/
structure Keyed (r : Registry φ) : Prop where
  functions : ∀ key f, r.functions.get? key = some f → f.val.name.lower = key
  classes : ∀ key c, r.classes.get? key = some c → c.name.lower = key

/-- A registry is keyed if both its tables are. -/
theorem keyed_iff (r : Registry φ) :
    r.Keyed ↔ r.functions.KeyedBy (fun f => f.val.name) ∧ r.classes.KeyedBy ClassDecl.name :=
  ⟨fun h => ⟨h.functions, h.classes⟩, fun h => ⟨h.1, h.2⟩⟩

theorem keyed_empty : (empty : Registry φ).Keyed :=
  (keyed_iff empty).mpr ⟨.empty, .empty⟩

variable {r : Registry φ}

theorem Keyed.declareFunction (h : r.Keyed) (f : Shared FunctionDecl) :
    (r.declareFunction f).state.Keyed := by
  rw [keyed_iff] at h ⊢
  exact ⟨h.1.insert f, h.2⟩

theorem Keyed.declareClass (h : r.Keyed) (d : ClassDecl φ) :
    (r.declareClass d).state.Keyed := by
  rw [keyed_iff] at h ⊢
  exact ⟨h.1, h.2.insert d⟩

/-- A change in place keeps classes under their names as long as it keeps their names. -/
theorem Keyed.updateClass (h : r.Keyed) (name : ByteString)
    {act : ClassDecl φ → Outcome (ClassDecl φ) α} (hact : ∀ c, (act c).state.name = c.name) :
    (r.updateClass name act).state.Keyed := by
  rw [keyed_iff] at h ⊢
  rw [functions_updateClass, classes_updateClass]
  exact ⟨h.1, h.2.modify name.lower hact⟩

theorem Keyed.redeclareCopy (h : r.Keyed) (name : ByteString)
    (act : ClassDecl φ → Outcome (ClassDecl φ) α) : (r.redeclareCopy name act).state.Keyed := by
  cases hfound : r.lookupClass name with
  | none => simpa only [Registry.redeclareCopy, hfound] using h
  | some c =>
    simp only [Registry.redeclareCopy, hfound]
    exact h.declareClass (act c).state

variable [FilterRule φ]

/-- A step on functions and classes keeps entries under their names. -/
theorem keyed_symbolStep (h : r.Keyed) (s : SymbolStep φ) : (r.symbolStep s).state.Keyed := by
  cases s using SymbolStep.effectCases with
  | declareFunction f => exact h.declareFunction f
  | declareClass c => exact h.declareClass c
  | updateClass name s => exact h.updateClass name fun c => ClassDecl.name_step c s
  | query i hi =>
    rw [state_symbolStep_of_asks r hi]
    exact h

/-- Every step keeps entries under their names. -/
theorem keyed_step (h : r.Keyed) (i : RegistryStep φ) : (r.step i).state.Keyed := by
  cases i with
  | symbol s => exact keyed_symbolStep h s
  | redeclareCopy name s => exact h.redeclareCopy name _

/-- After any run entries lie under their names. -/
theorem keyed_run (is : List (RegistryStep φ)) : (run step empty is).2.Keyed := by
  have keeps : ∀ (r : Registry φ) (i : RegistryStep φ), r.Keyed → (r.step i).state.Keyed := by
    intro r i h
    exact keyed_step h i
  exact run_invariant keeps keyed_empty is

end Registry

end ExecContext
