import ExecContext.Proofs.ByteString.Case
import ExecContext.Proofs.Symbol.Keys

/-!
# Redeclared copies

A copy of a class bears the name of the class.  As every class lies under its own name, a copy
that is declared takes the very place of its original, so that redeclaring a changed copy leaves
what changing the class in its place leaves.

Main results:

- Definition `RegistryStep.inPlace`: the step on the declared class for a step on a copy.
- Theorem `Registry.state_redeclareCopy`: a copy takes the place of its original.
- Theorem `Registry.replacesOnly`: a changed copy replaces its original and nothing else.
- Theorem `Registry.state_run_inPlace`: a run with copies leaves what the run in place leaves.
-/

namespace ExecContext

variable {φ α : Type}

/-- The step on functions and classes that does in its place what a step does on a copy. -/
def RegistryStep.inPlace : RegistryStep φ → SymbolStep φ
  | .symbol s => s
  | .redeclareCopy name s => .updateClass name s

/-- The steps in place include a step other than one on a class exactly if the steps do. -/
theorem RegistryStep.mem_map_inPlace_iff {is : List (RegistryStep φ)} {s : SymbolStep φ}
    (hs : ∀ name i, s ≠ .updateClass name i) :
    s ∈ is.map RegistryStep.inPlace ↔ .symbol s ∈ is := by
  rw [List.mem_map]
  constructor
  · rintro ⟨i, hi, hplace⟩
    cases i with
    | symbol j =>
      cases hplace
      exact hi
    | redeclareCopy name j => exact absurd hplace.symm (hs name j)
  · intro hmem
    exact ⟨.symbol s, hmem, rfl⟩

namespace Registry

variable {r : Registry φ}

/-- A class lies under the folded spelling by which it is found. -/
theorem Keyed.lower_eq_of_lookupClass (h : r.Keyed) {name : ByteString} {c : ClassDecl φ}
    (hfound : r.lookupClass name = some c) : c.name.lower = name.lower :=
  h.classes name.lower c hfound

/-- A copy that keeps its name takes the place of its original. -/
theorem state_redeclareCopy (h : r.Keyed) (name : ByteString)
    {act : ClassDecl φ → Outcome (ClassDecl φ) α} (hact : ∀ c, (act c).state.name = c.name) :
    (r.redeclareCopy name act).state = (r.updateClass name act).state := by
  cases hfound : r.lookupClass name with
  | none => simp only [redeclareCopy, updateClass, hfound]
  | some c =>
    have hkey : (act c).state.name.lower = name.lower := by
      rw [hact, h.lower_eq_of_lookupClass hfound]
    have hheld : r.classes.contains name.lower = true :=
      Option.isSome_iff_exists.mpr ⟨c, hfound⟩
    have hclasses := Table.insert_eq_modify (act c).state hheld
    rw [updateClass_of_found act hfound]
    simp only [redeclareCopy, hfound, declareClass, hkey, hclasses, Outcome.state_map]

variable [FilterRule φ]

/-- A step leaves what its change in place leaves. -/
theorem state_step_inPlace (h : r.Keyed) (i : RegistryStep φ) :
    (r.step i).state = (r.symbolStep i.inPlace).state := by
  cases i with
  | symbol s => rfl
  | redeclareCopy name s => exact state_redeclareCopy h name fun c => ClassDecl.name_step c s

/-- Redeclaring a changed copy of the class `c` replaces `c`, which is handed back as it was,
and nothing else. -/
structure ReplacesOnly (r : Registry φ) (spelling : ByteString) (s : ClassStep φ)
    (c : ClassDecl φ) : Prop where
  answer : (r.step (.redeclareCopy spelling s)).answer =
    .redeclared (some ((c.step s).answer, some c))
  classCount : (r.step (.redeclareCopy spelling s)).state.classCount = r.classCount
  classNames : (r.step (.redeclareCopy spelling s)).state.classNames = r.classNames
  functions : (r.step (.redeclareCopy spelling s)).state.functions = r.functions
  finds : ∀ name, (r.step (.redeclareCopy spelling s)).state.lookupClass name =
    if name.equalsIgnoringCase spelling then some (c.step s).state else r.lookupClass name

/-- A copy of a class that is found replaces it and nothing else. -/
theorem replacesOnly (h : r.Keyed) {spelling : ByteString} {c : ClassDecl φ}
    (hfound : r.lookupClass spelling = some c) (s : ClassStep φ) :
    r.ReplacesOnly spelling s c := by
  have hplace := state_step_inPlace h (.redeclareCopy spelling s)
  have hstate : (r.step (.redeclareCopy spelling s)).state =
      { r with classes := r.classes.modify spelling.lower fun _ => (c.step s).state } := by
    have hupdate := congrArg Outcome.state (updateClass_of_found (fun d => d.step s) hfound)
    exact hplace.trans hupdate
  have hprevious : (r.declareClass (c.step s).state).answer = some c := by
    change r.classes.get? (c.step s).state.name.lower = some c
    rw [ClassDecl.name_step, h.lower_eq_of_lookupClass hfound]
    exact hfound
  constructor
  · simp [step, redeclareCopy, hfound, hprevious]
  · rw [hstate]
    exact Table.size_modify r.classes spelling.lower _
  · rw [hstate]
    simp only [classNames, Table.sortedNames, Table.names_modify]
  · rw [hstate]
  · intro name
    have hfinds := lookupClass_updateClass (fun d => d.step s) hfound name
    simp only [ByteString.lower_eq_lower_iff] at hfinds
    rw [hplace]
    exact hfinds

/-- A run with copies leaves what the run in place leaves. -/
theorem state_run_inPlace (h : r.Keyed) (is : List (RegistryStep φ)) :
    (run step r is).2 = (run symbolStep r (is.map RegistryStep.inPlace)).2 := by
  induction is generalizing r with
  | nil => rfl
  | cons i is ih =>
    rw [run_cons, List.map_cons, run_cons, ← state_step_inPlace h i]
    exact ih (keyed_step h i)

end Registry

end ExecContext
