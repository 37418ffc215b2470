import ExecContext.Class.Step
import ExecContext.Symbol.Registry

/-!
# Steps on a symbol registry

The steps that programs take on functions and classes, as data, with what each
answers.  Redeclaring an edited copy is a step of the bare registry alone; all
others can be taken on a context as well.

Main results:

- Theorem `Registry.events_lookupFunction` and its companions: asking emits nothing.
-/

namespace ExecContext

/-- A step on functions and classes. -/
inductive SymbolStep (φ : Type) where
  | declareFunction (f : Shared FunctionDecl)
  | declareClass (c : ClassDecl φ)
  | lookupFunction (name : ByteString)
  | lookupClass (name : ByteString)
  | hasFunction (name : ByteString)
  | hasClass (name : ByteString)
  | counts
  | functionNames
  | classNames
  /-- Take a step on the declared class itself. -/
  | updateClass (name : ByteString) (step : ClassStep φ)
  /-- Ask whether the function of the constructor's name runs the constructor. -/
  | runsConstructor (name : ByteString)

/-- A step on a bare registry. -/
inductive RegistryStep (φ : Type) where
  | symbol (step : SymbolStep φ)
  /-- Take a step on a copy of a declared class and declare the copy. -/
  | redeclareCopy (name : ByteString) (step : ClassStep φ)

/-- What a step on functions and classes answers. -/
inductive SymbolAnswer (φ : Type) where
  | declared
  | function (found : Option (Shared FunctionDecl))
  | classDecl (found : Option (ClassDecl φ))
  | present (answer : Bool)
  | counts (functions classes : Nat)
  | names (folded : List ByteString)
  | updated (answer : Option (ClassAnswer φ))
  | redeclared (answer : Option (ClassAnswer φ × Option (ClassDecl φ)))
  | runsConstructor (answer : Option Bool)

namespace Registry

variable {φ : Type} [FilterRule φ]

/-- Takes one step on functions and classes.  A declaration answers with what it
replaces. -/
def symbolStep (r : Registry φ) : SymbolStep φ → Outcome (Registry φ) (SymbolAnswer φ)
  | .declareFunction f => (r.declareFunction f).map .function id
  | .declareClass c => (r.declareClass c).map .classDecl id
  | .lookupFunction name => { answer := .function (r.lookupFunction name), state := r }
  | .lookupClass name => { answer := .classDecl (r.lookupClass name), state := r }
  | .hasFunction name => { answer := .present (r.hasFunction name), state := r }
  | .hasClass name => { answer := .present (r.hasClass name), state := r }
  | .counts => { answer := .counts r.functionCount r.classCount, state := r }
  | .functionNames => { answer := .names r.functionNames, state := r }
  | .classNames => { answer := .names r.classNames, state := r }
  | .updateClass name s => (r.updateClass name fun c => c.step s).map .updated id
  | .runsConstructor name => { answer := .runsConstructor (r.runsConstructor name), state := r }

/-- Takes one step on a bare registry. -/
def step (r : Registry φ) : RegistryStep φ → Outcome (Registry φ) (SymbolAnswer φ)
  | .symbol s => r.symbolStep s
  | .redeclareCopy name s => (r.redeclareCopy name fun c => c.step s).map .redeclared id

@[simp]
theorem events_lookupFunction (r : Registry φ) (name : ByteString) :
    (r.symbolStep (.lookupFunction name)).events = [] :=
  rfl

@[simp]
theorem events_lookupClass (r : Registry φ) (name : ByteString) :
    (r.symbolStep (.lookupClass name)).events = [] :=
  rfl

/-- A step on a declared class emits nothing. -/
@[simp]
theorem events_updateClass (r : Registry φ) (name : ByteString) (s : ClassStep φ) :
    (r.symbolStep (.updateClass name s)).events = [] := by
  cases h : r.lookupClass name <;> simp [symbolStep, updateClass, h]

end Registry

end ExecContext
