import ExecContext.Proofs.Constant.Meaning
import ExecContext.Proofs.Context.Active
import ExecContext.Proofs.Frame.Handle
import ExecContext.Proofs.Symbol.Keys

/-!
# Futile steps

A step is futile when what it asks for is not there: the current frame, the chain of
a handle, the constant, the class, the property; or when the constant it declares is
there already.  Such a step says so in its answer, no other step does, and it leaves
everything as it was.  Only a restore or a resume that is refused is another matter:
it leaves everything but the chain, which is gone as after a discard.

Main results:

- Definitions `FrameStack.Futile`, `ConstantTable.Futile`, `ClassDecl.Futile`,
  `Registry.Futile` and `Context.Futile`: the steps that are futile in a state.
- Theorems `Context.reportsFailure_step_iff` and `Registry.reportsFailure_step_iff`: the
  futile steps are those whose answers report a failure.
- Theorems `Context.state_step_of_futile` and `Registry.state_step_of_futile`: they
  change nothing.
- Theorem `FrameStack.refused_iff`: when a restore or a resume is refused, and how.
-/

namespace ExecContext

variable {F φ α : Type}

/-! ## Frames -/

/-- Whether an answer reports that there was no current frame or no chain. -/
def FrameAnswer.reportsFailure : FrameAnswer F → Bool
  | .frame none | .acted Bool.false | .noHandle => true
  | _ => false

namespace FrameStack

/-- The step acts on the current frame of a stack that has none, or on the chain of a
handle that finds none. -/
def Futile (s : FrameStack F) (p : SavedPool F) : FrameStep F → Prop
  | .pop | .peek | .modifyTop _ | .duplicate => s.frames = []
  | .inspect h | .discard h | .restore h | .resume h => p.get? h = none
  | .push _ | .frames | .save _ => False

theorem reportsFailure_step_iff (s : FrameStack F) (p : SavedPool F) (i : FrameStep F) :
    (s.step p i).answer.reportsFailure = true ↔ s.Futile p i := by
  rcases s with ⟨frames⟩
  cases i with
  | push | frames | save => simp [step, FrameAnswer.reportsFailure, Futile]
  | pop => cases frames <;> simp [step, pop, FrameAnswer.reportsFailure, Futile]
  | peek => cases frames <;> simp [step, peek, FrameAnswer.reportsFailure, Futile]
  | modifyTop => cases frames <;> simp [step, peek, FrameAnswer.reportsFailure, Futile]
  | duplicate => cases frames <;> simp [step, peek, FrameAnswer.reportsFailure, Futile]
  | inspect h => cases hc : p.get? h <;> simp [step, hc, FrameAnswer.reportsFailure, Futile]
  | discard h => cases hc : p.get? h <;> simp [step, hc, FrameAnswer.reportsFailure, Futile]
  | restore h =>
    cases hc : p.get? h with
    | none => simp [step, hc, FrameAnswer.reportsFailure, Futile]
    | some c =>
      cases hr : (⟨frames⟩ : FrameStack F).restore c <;>
        simp [step, hc, hr, FrameAnswer.reportsFailure, Futile]
  | resume h =>
    cases hc : p.get? h with
    | none => simp [step, hc, FrameAnswer.reportsFailure, Futile]
    | some c =>
      cases hr : (⟨frames⟩ : FrameStack F).restore c <;>
        simp [step, hc, hr, FrameAnswer.reportsFailure, Futile]

theorem state_step_of_futile {s : FrameStack F} {p : SavedPool F} {i : FrameStep F}
    (h : s.Futile p i) : (s.step p i).state = (s, p) := by
  rcases s with ⟨frames⟩
  cases i with
  | push | frames | save => cases h
  | pop | peek | modifyTop | duplicate =>
    cases frames with
    | nil => rfl
    | cons f rest => cases h
  | inspect k | discard k | restore k | resume k =>
    have hk : p.get? k = none := h
    simp only [step, hk]

/-- A restore or a resume is refused exactly if its chain waits and the stack has frames;
the refusal carries their number. -/
theorem refused_iff (s : FrameStack F) (p : SavedPool F) {h : Nat} {i : FrameStep F}
    (closes : i = .restore h ∨ i = .resume h) (e : RestoreError) :
    (s.step p i).answer = .refused e ↔
      (p.get? h).isSome ∧ s.frames ≠ [] ∧ e.active = s.frames.length := by
  have hrefused : ∀ c, s.restore c = .error e ↔ s.frames ≠ [] ∧ e.active = s.frames.length := by
    intro c
    exact restore_eq_error_iff s c e
  rcases closes with rfl | rfl
  · cases hc : p.get? h with
    | none => simp [step, hc]
    | some c => cases hr : s.restore c <;> simp [step, hc, hr, ← hrefused c]
  · cases hc : p.get? h with
    | none => simp [step, hc]
    | some c => cases hr : s.restore c <;> simp [step, hc, hr, ← hrefused c]

/-- A restore or a resume that is refused leaves what a discard leaves. -/
theorem state_step_of_refused {s : FrameStack F} {p : SavedPool F} {h : Nat} {i : FrameStep F}
    (closes : i = .restore h ∨ i = .resume h) {e : RestoreError}
    (refused : (s.step p i).answer = .refused e) :
    (s.step p i).state = (s.step p (.discard h)).state := by
  rcases (refused_iff s p closes e).mp refused with ⟨hsome, hframes, -⟩
  rcases Option.isSome_iff_exists.mp hsome with ⟨c, hc⟩
  rcases closes with rfl | rfl
  · rw [step_restore_refused hframes hc, step_discard_found s hc]
  · rw [step_resume_refused hframes hc, step_discard_found s hc]

end FrameStack

/-! ## Constants -/

/-- Whether an answer reports that a constant is not there, or that it cannot be declared. -/
def ConstantAnswer.reportsFailure : ConstantAnswer → Bool
  | .rejected _ | .value none | .defined Bool.false => true
  | _ => false

namespace ConstantTable

/-- The step declares a name that means something already, or asks for one that means
nothing. -/
def Futile (t : ConstantTable) : ConstantStep → Prop
  | .declare name _ => t.isDefined name = true
  | .resolve name | .isDefined name => t.isDefined name = false

theorem reportsFailure_step_iff (t : ConstantTable) (i : ConstantStep) :
    (t.step i).answer.reportsFailure = true ↔ t.Futile i := by
  cases i with
  | declare name v =>
    cases hk : Keyword.parse name with
    | some k =>
      simp [step, declare_of_keyword v hk, ConstantAnswer.reportsFailure, Futile, isDefined, hk]
    | none =>
      cases hs : t.stored.contains name with
      | true =>
        simp [step, declare_of_stored v hk hs, ConstantAnswer.reportsFailure, Futile, isDefined,
          hs]
      | false =>
        simp [step, declare_of_new v hk hs, ConstantAnswer.reportsFailure, Futile, isDefined, hk,
          hs]
  | resolve name =>
    have hdefined := isDefined_eq_isSome_resolve t name
    cases hr : t.resolve name <;>
      simp [step, ConstantAnswer.reportsFailure, Futile, hdefined, hr]
  | isDefined name =>
    cases hd : t.isDefined name <;> simp [step, ConstantAnswer.reportsFailure, Futile, hd]

theorem state_step_of_futile {t : ConstantTable} {i : ConstantStep} (h : t.Futile i) :
    (t.step i).state = t := by
  have hreports := (reportsFailure_step_iff t i).mpr h
  cases i with
  | declare name v =>
    cases hd : t.declare name v with
    | error e => simp only [step, hd]
    | ok t' => simp [step, hd, ConstantAnswer.reportsFailure] at hreports
  | resolve name => rfl
  | isDefined name => rfl

end ConstantTable

/-! ## Classes and symbols -/

/-- Whether an answer reports that a property is not declared. -/
def ClassAnswer.reportsFailure : ClassAnswer φ → Bool
  | .edited Bool.false | .property _ none => true
  | _ => false

namespace ClassDecl

/-- The step edits or asks for a property that is not declared. -/
def Futile (c : ClassDecl φ) : ClassStep φ → Prop
  | .edit name _ | .property name => c.properties.contains name = false
  | _ => False

variable [FilterRule φ]

theorem reportsFailure_step_iff (c : ClassDecl φ) (i : ClassStep φ) :
    (c.step i).answer.reportsFailure = true ↔ c.Futile i := by
  cases i with
  | edit name decl =>
    cases h : c.properties.contains name <;> simp [step, ClassAnswer.reportsFailure, Futile, h]
  | property name =>
    cases h : c.properties.get? name <;>
      simp [step, ClassAnswer.reportsFailure, Futile, Table.contains, h]
  | _ => simp [step, ClassAnswer.reportsFailure, Futile]

theorem state_step_of_futile {c : ClassDecl φ} {i : ClassStep φ} (h : c.Futile i) :
    (c.step i).state = c := by
  cases i with
  | edit name decl =>
    have hproperties : c.properties.modify name (fun _ => decl) = c.properties :=
      Table.modify_of_not_contains _ h
    simp only [step, editProperty, hproperties]
  | property name => rfl
  | _ => cases h

end ClassDecl

/-- Whether an answer reports that a function, a class or a property is not declared. -/
def SymbolAnswer.reportsFailure : SymbolAnswer φ → Bool
  | .function none | .classDecl none | .present Bool.false | .updated none | .redeclared none
  | .runsConstructor none => true
  | .updated (some a) | .redeclared (some (a, _)) => a.reportsFailure
  | _ => false

/-- Whether a step declares a function or a class; it then answers with what it replaces,
which may well be nothing. -/
def RegistryStep.isDeclaration : RegistryStep φ → Bool
  | .symbol (.declareFunction _) | .symbol (.declareClass _) => true
  | _ => false

namespace Registry

/-- The step asks for a function or a class that is not declared, or takes a futile step on
a class. -/
def Futile (r : Registry φ) : RegistryStep φ → Prop
  | .symbol (.lookupFunction name) | .symbol (.hasFunction name) => r.lookupFunction name = none
  | .symbol (.lookupClass name) | .symbol (.hasClass name) => r.lookupClass name = none
  | .symbol (.updateClass name s) | .redeclareCopy name s =>
    ∀ c, r.lookupClass name = some c → c.Futile s
  | .symbol (.runsConstructor name) => r.runsConstructor name = none
  | .symbol _ => False

/-- A change in place that keeps the class changes nothing. -/
theorem state_updateClass_eq_self {r : Registry φ} {name : ByteString}
    {act : ClassDecl φ → Outcome (ClassDecl φ) α}
    (h : ∀ c, r.lookupClass name = some c → (act c).state = c) :
    (r.updateClass name act).state = r := by
  cases hfound : r.lookupClass name with
  | none => rw [updateClass_of_absent act hfound]
  | some c =>
    have hclasses : r.classes.modify name.lower (fun _ => (act c).state) = r.classes := by
      apply Table.modify_eq_self
      intro d hd
      have hcd : some c = some d := hfound.symm.trans hd
      cases hcd
      exact h c hfound
    rw [updateClass_of_found act hfound, Outcome.state_map, hclasses]

/-- Declaring an unchanged copy of a class changes nothing, since the class lies under its
own name. -/
theorem state_redeclareCopy_eq_self {r : Registry φ} (keyed : r.Keyed) {name : ByteString}
    {act : ClassDecl φ → Outcome (ClassDecl φ) α}
    (h : ∀ c, r.lookupClass name = some c → (act c).state = c) :
    (r.redeclareCopy name act).state = r := by
  cases hfound : r.lookupClass name with
  | none => simp only [redeclareCopy, hfound]
  | some c =>
    have hkey : c.name.lower = name.lower := keyed.classes name.lower c hfound
    have hclasses : r.classes.insert c.name.lower c = r.classes := by
      apply Table.insert_eq_self
      rw [hkey]
      exact hfound
    simp only [redeclareCopy, hfound, h c hfound, declareClass, hclasses]

variable [FilterRule φ]

/-- The futile steps are those whose answers report a failure. -/
theorem reportsFailure_step_iff (r : Registry φ) {i : RegistryStep φ}
    (hi : i.isDeclaration = false) :
    (r.step i).answer.reportsFailure = true ↔ r.Futile i := by
  cases i with
  | symbol s =>
    cases s with
    | declareFunction | declareClass => cases hi
    | lookupFunction name | hasFunction name =>
      have hcontains : r.hasFunction name = (r.lookupFunction name).isSome := rfl
      cases h : r.lookupFunction name <;>
        simp [step, symbolStep, SymbolAnswer.reportsFailure, Futile, hcontains, h]
    | lookupClass name | hasClass name =>
      have hcontains : r.hasClass name = (r.lookupClass name).isSome := rfl
      cases h : r.lookupClass name <;>
        simp [step, symbolStep, SymbolAnswer.reportsFailure, Futile, hcontains, h]
    | counts | functionNames | classNames =>
      simp [step, symbolStep, SymbolAnswer.reportsFailure, Futile]
    | updateClass name s =>
      cases h : r.lookupClass name with
      | none => simp [step, symbolStep, updateClass, SymbolAnswer.reportsFailure, Futile, h]
      | some c =>
        have hc := ClassDecl.reportsFailure_step_iff c s
        simp [step, symbolStep, updateClass, SymbolAnswer.reportsFailure, Futile, h, hc]
    | runsConstructor name =>
      cases h : r.runsConstructor name <;>
        simp [step, symbolStep, SymbolAnswer.reportsFailure, Futile, h]
  | redeclareCopy name s =>
    cases h : r.lookupClass name with
    | none => simp [step, redeclareCopy, SymbolAnswer.reportsFailure, Futile, h]
    | some c =>
      have hc := ClassDecl.reportsFailure_step_iff c s
      simp [step, redeclareCopy, SymbolAnswer.reportsFailure, Futile, h, hc]

/-- A futile step on functions and classes changes nothing. -/
theorem state_symbolStep_of_futile {r : Registry φ} {s : SymbolStep φ}
    (h : r.Futile (.symbol s)) : (r.symbolStep s).state = r := by
  cases s using SymbolStep.effectCases with
  | declareFunction | declareClass => cases h
  | updateClass name s =>
    have hfutile : ∀ c, r.lookupClass name = some c → c.Futile s := h
    apply state_updateClass_eq_self
    intro c hc
    exact ClassDecl.state_step_of_futile (hfutile c hc)
  | query i hi => exact state_symbolStep_of_asks r hi

/-- A futile step changes nothing. -/
theorem state_step_of_futile {r : Registry φ} (keyed : r.Keyed) {i : RegistryStep φ}
    (h : r.Futile i) : (r.step i).state = r := by
  cases i with
  | symbol s => exact state_symbolStep_of_futile h
  | redeclareCopy name s =>
    have hfutile : ∀ c, r.lookupClass name = some c → c.Futile s := h
    apply state_redeclareCopy_eq_self keyed
    intro c hc
    exact ClassDecl.state_step_of_futile (hfutile c hc)

end Registry

/-! ## Contexts -/

/-- Whether an answer of a context reports that something is not there. -/
def ContextAnswer.reportsFailure : ContextAnswer F φ → Bool
  | .frame a => a.reportsFailure
  | .symbol a => a.reportsFailure
  | .constant a => a.reportsFailure

namespace Context

/-- The step is futile for the part of the context that it concerns. -/
def Futile (c : Context F φ) (p : SavedPool F) : ContextStep F φ → Prop
  | .frame i => c.stack.Futile p i
  | .symbol i => c.symbols.Futile (.symbol i)
  | .constant i => c.constants.Futile i

variable [FilterRule φ]

/-- A symbol step that declares nothing answers as on the bare registry. -/
theorem answer_symbolStep {i : SymbolStep φ}
    (hi : (RegistryStep.symbol i).isDeclaration = false) (c : Context F φ) :
    (c.symbolStep i).answer = (c.symbols.symbolStep i).answer := by
  cases i with
  | declareFunction | declareClass => cases hi
  | _ => rfl

/-- The futile steps are those whose answers report a failure. -/
theorem reportsFailure_step_iff (c : Context F φ) (p : SavedPool F) (s : ContextStep F φ) :
    (c.step p s).answer.reportsFailure = true ↔ c.Futile p s := by
  cases s with
  | frame i =>
    have hstack := FrameStack.reportsFailure_step_iff c.stack p i
    rw [← answer_frameStep] at hstack
    exact hstack
  | constant i =>
    have hconstants := ConstantTable.reportsFailure_step_iff c.constants i
    rw [← answer_constantStep] at hconstants
    exact hconstants
  | symbol i =>
    cases hi : (RegistryStep.symbol i).isDeclaration with
    | false =>
      have hsymbols := Registry.reportsFailure_step_iff c.symbols hi
      simp only [Registry.step, ← answer_symbolStep hi c] at hsymbols
      exact hsymbols
    | true =>
      cases i with
      | declareFunction | declareClass =>
        simp [step, symbolStep, ContextAnswer.reportsFailure, SymbolAnswer.reportsFailure, Futile,
          Registry.Futile]
      | _ => cases hi

/-- A futile step changes nothing. -/
theorem state_step_of_futile {c : Context F φ} {p : SavedPool F} {s : ContextStep F φ}
    (h : c.Futile p s) : (c.step p s).state = (c, p) := by
  cases s with
  | frame i =>
    have hstack : (c.stack.step p i).state = (c.stack, p) := FrameStack.state_step_of_futile h
    have hstate := state_frameStep c p i
    rw [hstack] at hstate
    exact hstate
  | symbol i =>
    have hsymbols := Registry.state_symbolStep_of_futile h
    simp only [step, Outcome.state_map, state_symbolStep, hsymbols]
  | constant i =>
    have hconstants := ConstantTable.state_step_of_futile h
    simp only [step, Outcome.state_map, state_constantStep, hconstants]

end Context

end ExecContext
