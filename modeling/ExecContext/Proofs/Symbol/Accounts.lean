import ExecContext.Proofs.Run.Transcript
import ExecContext.Proofs.Symbol.Copies
import ExecContext.Proofs.Symbol.History

/-!
# Declarations accounted for

A registry reports a declaration as new if it found nothing under the name, and else as made
again.  As nothing is ever removed, the reports of new declarations are as many as there are
functions and classes, and a declaration is reported as made again exactly if an earlier one
bore its name, spelled alike up to case.

Main results:

- Theorem `Registry.growsBy_step`: a step adds what its events report as new.
- Theorem `Registry.growsBy_run`: so does a run.
- Theorem `Registry.Accounts.of_history`: events account for the declarations of a history.
- Theorem `Registry.accounts_run`: so does the log of a bare registry.
-/

namespace ExecContext

variable {φ α : Type}

/-! ## Events of declarations -/

namespace Event

/-- Whether an event reports a new function. -/
def addsFunction : Event → Bool
  | .functionDeclared _ => true
  | _ => false

/-- Whether an event reports a new class. -/
def addsClass : Event → Bool
  | .classDeclared _ => true
  | _ => false

/-- Whether an event reports a declaration of a function or a class. -/
def declares : Event → Bool
  | .functionDeclared _ | .functionRedeclared _ | .classDeclared _ | .classRedeclared _ => true
  | _ => false

/-- An event that reports no declaration reports no new one. -/
theorem adds_of_not_declares {e : Event} (he : e.declares = false) :
    e.addsFunction = false ∧ e.addsClass = false := by
  cases e with
  | functionDeclared | functionRedeclared | classDeclared | classRedeclared => cases he
  | contextCreated | constantRejected | framePushed | framePopped | stackSaved
  | stackRestored => exact ⟨rfl, rfl⟩

end Event

namespace Registry

/-- The events `es` report what the registry `q` has more than the registry `r`. -/
structure GrowsBy (r : Registry φ) (es : List Event) (q : Registry φ) : Prop where
  functions : q.functionCount = r.functionCount + es.countP Event.addsFunction
  classes : q.classCount = r.classCount + es.countP Event.addsClass

/-- Events that report no declaration add nothing. -/
theorem GrowsBy.of_aside {r q : Registry φ} {es : List Event}
    (aside : ∀ e ∈ es, e.declares = false) (functions : q.functionCount = r.functionCount)
    (classes : q.classCount = r.classCount) : r.GrowsBy es q := by
  constructor
  · rw [functions, List.countP_eq_zero.mpr, Nat.add_zero]
    intro e he
    simp [(Event.adds_of_not_declares (aside e he)).1]
  · rw [classes, List.countP_eq_zero.mpr, Nat.add_zero]
    intro e he
    simp [(Event.adds_of_not_declares (aside e he)).2]

theorem GrowsBy.silence (r : Registry φ) : r.GrowsBy [] r :=
  .of_aside (fun _ he => absurd he List.not_mem_nil) rfl rfl

/-- What two parts of a log report is added one after the other. -/
theorem GrowsBy.append {r q p : Registry φ} {es fs : List Event} (hes : r.GrowsBy es q)
    (hfs : q.GrowsBy fs p) : r.GrowsBy (es ++ fs) p := by
  constructor
  · rw [hfs.functions, hes.functions, List.countP_append, Nat.add_assoc]
  · rw [hfs.classes, hes.classes, List.countP_append, Nat.add_assoc]

/-- A registry in which a symbol is declared reports it as new unless it finds one already. -/
theorem countP_declaration (found : Option α) {again new : Event} {adds : Event → Bool}
    (hagain : adds again = false) (hnew : adds new = true) :
    [if found.isSome then again else new].countP adds = if found.isSome then 0 else 1 := by
  cases found <;> simp [hagain, hnew]

/-- What it reports adds no symbol of the other kind. -/
theorem countP_declaration_other (found : Option α) {again new : Event} {adds : Event → Bool}
    (hagain : adds again = false) (hnew : adds new = false) :
    [if found.isSome then again else new].countP adds = 0 := by
  cases found <;> simp [hagain, hnew]

/-! ## Steps -/

theorem growsBy_declareFunction (r : Registry φ) (f : Shared FunctionDecl) :
    r.GrowsBy (r.declareFunction f).events (r.declareFunction f).state where
  functions := by
    rw [declareFunction, countP_declaration _ rfl rfl]
    exact Table.size_insert r.functions f.val.name.lower f
  classes := by
    rw [declareFunction, countP_declaration_other _ rfl rfl]
    rfl

theorem growsBy_declareClass (r : Registry φ) (c : ClassDecl φ) :
    r.GrowsBy (r.declareClass c).events (r.declareClass c).state where
  functions := by
    rw [declareClass, countP_declaration_other _ rfl rfl]
    rfl
  classes := by
    rw [declareClass, countP_declaration _ rfl rfl]
    exact Table.size_insert r.classes c.name.lower c

/-- A change in place adds nothing, whatever it reports. -/
theorem counts_updateClass (r : Registry φ) (name : ByteString)
    (act : ClassDecl φ → Outcome (ClassDecl φ) α) :
    (r.updateClass name act).state.functionCount = r.functionCount ∧
      (r.updateClass name act).state.classCount = r.classCount := by
  rw [functionCount, functions_updateClass, classCount, classes_updateClass, Table.size_modify]
  exact ⟨rfl, rfl⟩

variable [FilterRule φ]

theorem growsBy_symbolStep (r : Registry φ) (s : SymbolStep φ) :
    r.GrowsBy (r.symbolStep s).events (r.symbolStep s).state := by
  cases s using SymbolStep.effectCases with
  | declareFunction f => exact growsBy_declareFunction r f
  | declareClass c => exact growsBy_declareClass r c
  | updateClass name s =>
    have hcounts := counts_updateClass r name fun c => c.step s
    rw [events_updateClass]
    exact .of_aside (fun _ he => absurd he List.not_mem_nil) hcounts.1 hcounts.2
  | query i hi =>
    rw [state_symbolStep_of_asks r hi, events_symbolStep_of_asks r hi]
    exact .silence r

/-- Redeclaring a copy reports what the declaration of the copy reports. -/
theorem growsBy_redeclareCopy (r : Registry φ) (name : ByteString) (s : ClassStep φ) :
    r.GrowsBy (r.step (.redeclareCopy name s)).events (r.step (.redeclareCopy name s)).state := by
  cases h : r.lookupClass name with
  | none =>
    simp only [step, redeclareCopy, h]
    exact .silence r
  | some c =>
    simp only [step, redeclareCopy, h, ClassDecl.events_step, List.nil_append]
    exact growsBy_declareClass r (c.step s).state

/-- A step adds what its events report as new. -/
theorem growsBy_step (r : Registry φ) (i : RegistryStep φ) :
    r.GrowsBy (r.step i).events (r.step i).state := by
  cases i with
  | symbol s => exact growsBy_symbolStep r s
  | redeclareCopy name s => exact growsBy_redeclareCopy r name s

/-- A run adds what its events report as new. -/
theorem growsBy_run (r : Registry φ) (is : List (RegistryStep φ)) :
    r.GrowsBy ((run step r is).1.flatMap Reply.events) (run step r is).2 := by
  have told : ∀ (q : Registry φ) i, q.GrowsBy (q.step i).events (q.step i).state := by
    intro q i
    exact growsBy_step q i
  rw [← logOf_true]
  exact told_run_logOf id (fun _ => true) GrowsBy.silence GrowsBy.append told r is

/-- A copy of a class that is found is reported as declared again, under the name of the
class; without the class nothing is reported. -/
theorem events_redeclareCopy {r : Registry φ} (h : r.Keyed) (name : ByteString)
    (s : ClassStep φ) : (r.step (.redeclareCopy name s)).events =
      (r.lookupClass name).toList.map fun c => .classRedeclared c.displayName := by
  cases hfound : r.lookupClass name with
  | none => simp [step, redeclareCopy, hfound]
  | some c =>
    have hheld : r.lookupClass c.name = some c := by
      rw [lookupClass, h.lower_eq_of_lookupClass hfound]
      exact hfound
    simp [step, redeclareCopy, declareClass, hfound, hheld, ClassDecl.displayName]

/-! ## Histories -/

theorem events_eq_redeclared_iff {found : Option α} {again new : Event} (h : again ≠ new) :
    [if found.isSome then again else new] = [again] ↔ found ≠ none := by
  cases found <;> simp [h.symm]

theorem events_eq_declared_iff {found : Option α} {again new : Event} (h : again ≠ new) :
    [if found.isSome then again else new] = [new] ↔ found = none := by
  cases found <;> simp [h]

/-- The log of a registry on which the steps were taken that `taken` accepts accounts for what
it holds, and what it reports next, by `report`, accounts for these steps. -/
structure Accounts (r : Registry φ) (taken : SymbolStep φ → Prop) (log : List Event)
    (report : SymbolStep φ → List Event) : Prop where
  functionCount : r.functionCount = log.countP Event.addsFunction
  classCount : r.classCount = log.countP Event.addsClass
  /-- A declaration is the only event of its step, and shows the name as it is written now.  It
  is made again if an earlier one bore that name in some spelling, and else it is new. -/
  functionRedeclared_iff : ∀ f,
    report (.declareFunction f) = [.functionRedeclared f.val.displayName] ↔
      ∃ g, taken (.declareFunction g) ∧ f.val.name.equalsIgnoringCase g.val.name = true
  functionDeclared_iff : ∀ f,
    report (.declareFunction f) = [.functionDeclared f.val.displayName] ↔
      ∀ g, taken (.declareFunction g) → f.val.name.equalsIgnoringCase g.val.name = false
  classRedeclared_iff : ∀ c, report (.declareClass c) = [.classRedeclared c.displayName] ↔
    ∃ d, taken (.declareClass d) ∧ c.name.equalsIgnoringCase d.name = true
  classDeclared_iff : ∀ c, report (.declareClass c) = [.classDeclared c.displayName] ↔
    ∀ d, taken (.declareClass d) → c.name.equalsIgnoringCase d.name = false
  /-- All other steps report nothing. -/
  silent : ∀ s : SymbolStep φ, s.functionName? = none → s.className? = none → report s = []

/-- The events of a history account for its declarations. -/
theorem Accounts.of_history {is : List (SymbolStep φ)} {taken : SymbolStep φ → Prop}
    {log : List Event} {report : SymbolStep φ → List Event} {r : Registry φ}
    (history : r = (run symbolStep empty is).2)
    (functions : ∀ f, taken (.declareFunction f) ↔ .declareFunction f ∈ is)
    (classes : ∀ c, taken (.declareClass c) ↔ .declareClass c ∈ is)
    (grows : empty.GrowsBy log r) (reports : ∀ s, report s = (r.symbolStep s).events) :
    r.Accounts taken log report := by
  have hfunction : ∀ name, r.lookupFunction name = none ↔
      ∀ g, taken (.declareFunction g) → name.equalsIgnoringCase g.val.name = false := by
    intro name
    simp only [history, lookupFunction_run_eq_none_iff, functions]
  have hclass : ∀ name, r.lookupClass name = none ↔
      ∀ d, taken (.declareClass d) → name.equalsIgnoringCase d.name = false := by
    intro name
    simp only [history, lookupClass_run_eq_none_iff, classes]
  refine ⟨?_, ?_, ?_, ?_, ?_, ?_, ?_⟩
  · rw [grows.functions]
    exact Nat.zero_add _
  · rw [grows.classes]
    exact Nat.zero_add _
  · intro f
    rw [reports]
    refine (events_eq_redeclared_iff (by simp)).trans ?_
    rw [ne_eq, hfunction]
    simp
  · intro f
    rw [reports]
    exact (events_eq_declared_iff (by simp)).trans (hfunction f.val.name)
  · intro c
    rw [reports]
    refine (events_eq_redeclared_iff (by simp)).trans ?_
    rw [ne_eq, hclass]
    simp
  · intro c
    rw [reports]
    exact (events_eq_declared_iff (by simp)).trans (hclass c.name)
  · intro s hfunctionName hclassName
    rw [reports]
    cases s using SymbolStep.effectCases with
    | declareFunction f => cases hfunctionName
    | declareClass c => cases hclassName
    | updateClass name s => exact events_updateClass r name s
    | query i hi => exact events_symbolStep_of_asks r hi

/-- After any run of a bare registry its log accounts for its functions and classes.  Redeclared
copies bear names of declared classes, and so need not be told apart from steps in place. -/
theorem accounts_run (is : List (RegistryStep φ)) :
    let r := (run step empty is).2
    r.Accounts (fun s => .symbol s ∈ is) ((run step empty is).1.flatMap Reply.events)
      fun s => (r.step (.symbol s)).events := by
  intro r
  have hhistory := state_run_inPlace keyed_empty is
  have hgrows := growsBy_run empty is
  apply Accounts.of_history hhistory
  · intro f
    exact (RegistryStep.mem_map_inPlace_iff (by simp)).symm
  · intro c
    exact (RegistryStep.mem_map_inPlace_iff (by simp)).symm
  · exact hgrows
  · intro s
    rfl

end Registry

end ExecContext
