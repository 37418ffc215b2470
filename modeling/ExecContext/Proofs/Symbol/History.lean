import ExecContext.Proofs.Symbol.Kinds

/-!
# Registries by their history

What a registry answers is settled by the steps that were taken on it.  Under every
spelling a name finds the function declared last, and the class declared last with the
steps taken on it since.  The folded names that were declared are listed, each once.
Functions and classes do not get into each other's way.

Main results:

- Definitions `SymbolKind.functions` and `SymbolKind.classes`: the two kinds of symbols.
- Theorems `Registry.functionCell` and `Registry.classCell`: how steps change what a name
  finds.
- Theorems `Registry.lookupFunction_run_eq_some_iff` and
  `Registry.lookupClass_run_eq_some_iff`: what a name finds after a run.
- Theorem `Registry.told_by_history`: all answers after any history.
-/

namespace ExecContext

variable {φ : Type}

/-! ## What steps declare -/

namespace SymbolStep

/-- The function that a step declares under a spelling of the name. -/
def functionUnder? (name : ByteString) : SymbolStep φ → Option (Shared FunctionDecl)
  | .declareFunction f => if name.equalsIgnoringCase f.val.name then some f else none
  | _ => none

/-- The class that a step declares under a spelling of the name. -/
def classUnder? (name : ByteString) : SymbolStep φ → Option (ClassDecl φ)
  | .declareClass c => if name.equalsIgnoringCase c.name then some c else none
  | _ => none

/-- The step on the class of the name that a step is, under any spelling. -/
def classStep? (name : ByteString) : SymbolStep φ → Option (ClassStep φ)
  | .updateClass spelling s => if name.equalsIgnoringCase spelling then some s else none
  | _ => none

/-- What a step makes of the class of the name: it takes the step on it, if it is one. -/
def amendsClass [FilterRule φ] (name : ByteString) (i : SymbolStep φ) :
    ClassDecl φ → ClassDecl φ :=
  fun c => ((classStep? name i).map fun s => (c.step s).state).getD c

theorem amendsClass_of_none [FilterRule φ] {name : ByteString} {i : SymbolStep φ}
    (h : classStep? name i = none) : amendsClass name i = id := by
  funext c
  simp [amendsClass, h]

/-- The steps of a list make of the class of the name what its own steps make of it. -/
theorem foldl_amendsClass [FilterRule φ] (name : ByteString) (is : List (SymbolStep φ))
    (c : ClassDecl φ) :
    is.foldl (fun c i => amendsClass name i c) c =
      (run ClassDecl.step c (is.filterMap (classStep? name))).2 := by
  induction is generalizing c with
  | nil => rfl
  | cons i is ih =>
    rw [List.foldl_cons, ih]
    cases hi : classStep? name i with
    | none => rw [List.filterMap_cons_none hi, amendsClass_of_none hi, id_eq]
    | some s =>
      have hstep : amendsClass name i c = (c.step s).state := by simp [amendsClass, hi]
      rw [List.filterMap_cons_some hi, hstep, run_cons]

/-- The folded name of the function that a step declares. -/
def functionName? : SymbolStep φ → Option ByteString
  | .declareFunction f => some f.val.name.lower
  | _ => none

/-- The folded name of the class that a step declares. -/
def className? : SymbolStep φ → Option ByteString
  | .declareClass c => some c.name.lower
  | _ => none

/-- Whether a step is about functions only. -/
def concernsFunctions : SymbolStep φ → Bool
  | .declareFunction _ | .lookupFunction _ | .hasFunction _ | .functionNames => true
  | _ => false

/-- Whether a step is about classes only. -/
def concernsClasses : SymbolStep φ → Bool
  | .declareClass _ | .lookupClass _ | .hasClass _ | .classNames | .updateClass _ _ => true
  | _ => false

/-- The spelling under which a step changes a class in its place, and the change. -/
def classEdit? [FilterRule φ] :
    SymbolStep φ → Option (ByteString × (ClassDecl φ → ClassDecl φ))
  | .updateClass spelling s => some (spelling, fun c => (c.step s).state)
  | _ => none

theorem classEdit?_of_asks [FilterRule φ] {i : SymbolStep φ} (h : i.asks = true) :
    i.classEdit? = none := by
  cases i with
  | updateClass => cases h
  | _ => rfl

end SymbolStep

/-! ## The two kinds -/

namespace SymbolKind

open SymbolStep

variable [FilterRule φ]

/-- Functions, which no step changes in their place. -/
def functions : SymbolKind φ (Shared FunctionDecl) where
  name f := f.val.name
  table := Registry.functions
  declare := .declareFunction
  under? := functionUnder?
  folded? := functionName?
  edit? _ := none
  concerns := concernsFunctions
  under?_declare _ _ := rfl
  folded?_declare _ := rfl
  edit?_declare _ := rfl
  declares_or i := by
    cases i with
    | declareFunction f => exact .inl ⟨f, rfl⟩
    | _ => exact .inr ⟨rfl, fun _ => rfl⟩
  table_empty := rfl
  table_declare _ _ := rfl
  table_edit r i hi := by
    cases i using effectCases with
    | declareFunction f => cases hi
    | declareClass c => rfl
    | updateClass name s => exact Registry.functions_updateClass r name fun c => c.step s
    | query i hasks =>
      rw [Registry.state_symbolStep_of_asks r hasks]
      rfl
  edit?_of_not_concerned i hi := by
    cases i with
    | declareFunction => cases hi
    | _ => exact ⟨rfl, rfl⟩
  answer_congr {r q} h i hi := by
    rcases r with ⟨functions, classes⟩
    cases h
    cases i with
    | declareFunction | lookupFunction | hasFunction | functionNames => rfl
    | _ => cases hi

/-- Classes, which steps may change in their place. -/
def classes : SymbolKind φ (ClassDecl φ) where
  name := ClassDecl.name
  table := Registry.classes
  declare := .declareClass
  under? := classUnder?
  folded? := className?
  edit? := classEdit?
  concerns := concernsClasses
  under?_declare _ _ := rfl
  folded?_declare _ := rfl
  edit?_declare _ := rfl
  declares_or i := by
    cases i with
    | declareClass c => exact .inl ⟨c, rfl⟩
    | _ => exact .inr ⟨rfl, fun _ => rfl⟩
  table_empty := rfl
  table_declare _ _ := rfl
  table_edit r i hi := by
    cases i using effectCases with
    | declareFunction f => rfl
    | declareClass c => cases hi
    | updateClass name s => exact Registry.classes_updateClass r name fun c => c.step s
    | query i hasks =>
      rw [Registry.state_symbolStep_of_asks r hasks, classEdit?_of_asks hasks]
      rfl
  edit?_of_not_concerned i hi := by
    cases i with
    | declareClass | updateClass => cases hi
    | _ => exact ⟨rfl, rfl⟩
  answer_congr {r q} h i hi := by
    rcases r with ⟨functions, classes⟩
    cases h
    cases i with
    | declareClass | lookupClass | hasClass | classNames => rfl
    | updateClass name s =>
      have hsame : Registry.lookupClass ⟨functions, q.classes⟩ name = q.lookupClass name := rfl
      cases hq : q.lookupClass name <;>
        simp [Registry.symbolStep, Registry.updateClass, hsame, hq]
    | _ => cases hi

end SymbolKind

namespace Registry

open SymbolStep

variable [FilterRule φ]

/-! ## What a name finds -/

/-- A declaration under a spelling of the name writes what the name finds as a function. -/
theorem functionCell (name : ByteString) :
    ActsOnCell (@symbolStep φ _) (fun r => r.lookupFunction name) (functionUnder? name)
      fun _ f => f :=
  SymbolKind.functions.cell name

/-- A step on the class of the name amends it, under any spelling. -/
theorem amends_classes (name : ByteString) (i : SymbolStep φ) :
    SymbolKind.classes.amends name i = amendsClass name i := by
  funext c
  cases i with
  | updateClass spelling s =>
    change (if name.equalsIgnoringCase spelling then (c.step s).state else c) = _
    cases hspelled : name.equalsIgnoringCase spelling <;> simp [amendsClass, classStep?, hspelled]
  | _ => rfl

/-- A declaration under a spelling of the name writes what the name finds as a class; a step
on the class of such a spelling amends it. -/
theorem classCell (name : ByteString) :
    ActsOnCell (@symbolStep φ _) (fun r => r.lookupClass name) (classUnder? name)
      (amendsClass name) := by
  have hcell := (SymbolKind.classes (φ := φ)).cell name
  rw [funext (amends_classes name)] at hcell
  exact hcell

/-- What a name finds as a function after a run of the empty registry. -/
theorem lookupFunction_run_eq_some_iff (is : List (SymbolStep φ)) (name : ByteString)
    (f : Shared FunctionDecl) :
    (run symbolStep empty is).2.lookupFunction name = some f ↔
      ∃ later, WrittenLast (functionUnder? name) is f later := by
  rw [(functionCell name).find_run_eq_some_iff rfl]
  constructor
  · rintro ⟨g, later, hlast, rfl⟩
    rw [List.foldl_fixed]
    exact ⟨later, hlast⟩
  · rintro ⟨later, hlast⟩
    exact ⟨f, later, hlast, (List.foldl_fixed later).symm⟩

/-- What a name finds as a class after a run of the empty registry. -/
theorem lookupClass_run_eq_some_iff (is : List (SymbolStep φ)) (name : ByteString)
    (c : ClassDecl φ) :
    (run symbolStep empty is).2.lookupClass name = some c ↔
      ∃ d later, WrittenLast (classUnder? name) is d later ∧
        c = (run ClassDecl.step d (later.filterMap (classStep? name))).2 := by
  rw [(classCell name).find_run_eq_some_iff rfl]
  simp only [foldl_amendsClass]

/-- A name finds no function after it exactly if none was declared under one of its spellings. -/
theorem lookupFunction_run_eq_none_iff (is : List (SymbolStep φ)) (name : ByteString) :
    (run symbolStep empty is).2.lookupFunction name = none ↔
      ∀ f, .declareFunction f ∈ is → name.equalsIgnoringCase f.val.name = false :=
  SymbolKind.functions.get?_run_eq_none_iff is name

/-- A name finds no class after it exactly if none was declared under one of its spellings. -/
theorem lookupClass_run_eq_none_iff (is : List (SymbolStep φ)) (name : ByteString) :
    (run symbolStep empty is).2.lookupClass name = none ↔
      ∀ c, .declareClass c ∈ is → name.equalsIgnoringCase c.name = false :=
  SymbolKind.classes.get?_run_eq_none_iff is name

/-! ## All answers -/

/-- A registry answers as the steps `is` tell. -/
structure ToldBy (r : Registry φ) (is : List (SymbolStep φ)) : Prop where
  /-- A name finds the very function that was declared last under one of its spellings. -/
  function_iff : ∀ name f, r.lookupFunction name = some f ↔
    ∃ later, WrittenLast (functionUnder? name) is f later
  no_function_iff : ∀ name, r.lookupFunction name = none ↔ ∀ f, .declareFunction f ∈ is →
    name.equalsIgnoringCase f.val.name = false
  /-- A name finds the class that was declared last under one of its spellings, with exactly
  the steps taken on it since under any of them. -/
  class_iff : ∀ name c, r.lookupClass name = some c ↔
    ∃ d later, WrittenLast (classUnder? name) is d later ∧
      c = (run ClassDecl.step d (later.filterMap (classStep? name))).2
  no_class_iff : ∀ name, r.lookupClass name = none ↔ ∀ c, .declareClass c ∈ is →
    name.equalsIgnoringCase c.name = false
  /-- A declaration answers what a lookup of its name would just have found. -/
  replaced_function : ∀ f, (r.symbolStep (.declareFunction f)).answer =
    (r.symbolStep (.lookupFunction f.val.name)).answer
  replaced_class : ∀ c, (r.symbolStep (.declareClass c)).answer =
    (r.symbolStep (.lookupClass c.name)).answer
  has_function : ∀ name, (r.symbolStep (.hasFunction name)).answer =
    .present (r.lookupFunction name).isSome
  has_class : ∀ name, (r.symbolStep (.hasClass name)).answer =
    .present (r.lookupClass name).isSome
  /-- The counts are those of the distinct folded names that were declared. -/
  counts : (r.symbolStep .counts).answer = .counts (is.filterMap functionName?).toFinset.card
    (is.filterMap className?).toFinset.card
  /-- The folded names that were declared are listed, each once. -/
  function_names : ∃ names, (r.symbolStep .functionNames).answer = .names names ∧
    names.Nodup ∧ ∀ key, key ∈ names ↔ ∃ f, .declareFunction f ∈ is ∧ f.val.name.lower = key
  class_names : ∃ names, (r.symbolStep .classNames).answer = .names names ∧
    names.Nodup ∧ ∀ key, key ∈ names ↔ ∃ c, .declareClass c ∈ is ∧ c.name.lower = key
  /-- Steps about functions answer as if there had been no others. -/
  functions_alone : ∀ s, s.concernsFunctions = true → (r.symbolStep s).answer =
    ((run symbolStep empty (is.filter concernsFunctions)).2.symbolStep s).answer
  /-- Steps about classes answer as if there had been no others. -/
  classes_alone : ∀ s, s.concernsClasses = true → (r.symbolStep s).answer =
    ((run symbolStep empty (is.filter concernsClasses)).2.symbolStep s).answer

/-- After any steps a registry that was empty answers as these steps tell. -/
theorem told_by_history (is : List (SymbolStep φ)) : (run symbolStep empty is).2.ToldBy is where
  function_iff := lookupFunction_run_eq_some_iff is
  no_function_iff := lookupFunction_run_eq_none_iff is
  class_iff := lookupClass_run_eq_some_iff is
  no_class_iff := lookupClass_run_eq_none_iff is
  replaced_function _ := rfl
  replaced_class _ := rfl
  has_function _ := rfl
  has_class _ := rfl
  counts := by
    have hfunctions := Table.size_eq_card (SymbolKind.functions.mem_names_run is)
    have hclasses := Table.size_eq_card (SymbolKind.classes.mem_names_run is)
    exact congrArg₂ SymbolAnswer.counts hfunctions hclasses
  function_names := by
    refine ⟨_, rfl, Table.nodup_sortedNames _, ?_⟩
    intro key
    rw [functionNames, Table.mem_sortedNames]
    exact (SymbolKind.functions.mem_names_run is key).trans
      (SymbolKind.functions.mem_filterMap_folded? is key)
  class_names := by
    refine ⟨_, rfl, Table.nodup_sortedNames _, ?_⟩
    intro key
    rw [classNames, Table.mem_sortedNames]
    exact (SymbolKind.classes.mem_names_run is key).trans
      (SymbolKind.classes.mem_filterMap_folded? is key)
  functions_alone _ hs := SymbolKind.functions.answer_run_filter empty is hs
  classes_alone _ hs := SymbolKind.classes.answer_run_filter empty is hs

end Registry

end ExecContext
