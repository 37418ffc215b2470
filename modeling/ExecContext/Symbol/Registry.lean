import ExecContext.ByteString.Case
import ExecContext.Class.Basic
import ExecContext.Outcome

/-!
# Symbol registries

A registry holds functions and classes under their names folded to lower case,
so that a name finds what was declared under any of its spellings.  A later
declaration replaces an earlier one; nothing is ever removed.  Each declaration
is reported with the name as it is written there.
-/

namespace ExecContext

/-- Functions and classes by folded name. -/
structure Registry (φ : Type) where
  functions : Table (Shared FunctionDecl) := .empty
  classes : Table (ClassDecl φ) := .empty

namespace Registry

variable {φ α : Type}

/-- The registry without declarations. -/
def empty : Registry φ :=
  {}

/-! ## Lookups -/

/-- The function declared last under a spelling of the name. -/
def lookupFunction (r : Registry φ) (name : ByteString) : Option (Shared FunctionDecl) :=
  r.functions.get? name.lower

/-- The class declared last under a spelling of the name. -/
def lookupClass (r : Registry φ) (name : ByteString) : Option (ClassDecl φ) :=
  r.classes.get? name.lower

/-- Whether a function is declared under a spelling of the name. -/
def hasFunction (r : Registry φ) (name : ByteString) : Bool :=
  r.functions.contains name.lower

/-- Whether a class is declared under a spelling of the name. -/
def hasClass (r : Registry φ) (name : ByteString) : Bool :=
  r.classes.contains name.lower

/-- The number of functions. -/
def functionCount (r : Registry φ) : Nat :=
  r.functions.size

/-- The number of classes. -/
def classCount (r : Registry φ) : Nat :=
  r.classes.size

/-- The folded names of all functions.  They are a set: the order in which they are kept means
nothing, and the list in bytewise order stands for them. -/
def functionNames (r : Registry φ) : List ByteString :=
  r.functions.sortedNames

/-- The folded names of all classes, as a set; the list in bytewise order stands for it. -/
def classNames (r : Registry φ) : List ByteString :=
  r.classes.sortedNames

/-- Whether the function named like the constructor body of a class runs that very
body.  Without such a class, constructor or function there is no answer. -/
def runsConstructor (r : Registry φ) (name : ByteString) : Option Bool :=
  match r.lookupClass name with
  | none => none
  | some c =>
    match c.constructorBody with
    | none => none
    | some body => (r.lookupFunction body.val.name).map fun f => f.val.body.same body

/-! ## Declarations -/

/-- Declares a function and answers with the one that it replaces. -/
def declareFunction (r : Registry φ) (f : Shared FunctionDecl) :
    Outcome (Registry φ) (Option (Shared FunctionDecl)) :=
  let previous := r.lookupFunction f.val.name
  { answer := previous
    events :=
      [if previous.isSome then .functionRedeclared f.val.displayName
        else .functionDeclared f.val.displayName]
    state := { r with functions := r.functions.insert f.val.name.lower f } }

/-- Declares a class and answers with the one that it replaces. -/
def declareClass (r : Registry φ) (c : ClassDecl φ) :
    Outcome (Registry φ) (Option (ClassDecl φ)) :=
  let previous := r.lookupClass c.name
  { answer := previous
    events :=
      [if previous.isSome then .classRedeclared c.displayName else .classDeclared c.displayName]
    state := { r with classes := r.classes.insert c.name.lower c } }

/-- Acts on a declared class in its place.  Without such a class nothing is done and
there is no answer. -/
def updateClass (r : Registry φ) (name : ByteString)
    (act : ClassDecl φ → Outcome (ClassDecl φ) α) : Outcome (Registry φ) (Option α) :=
  match r.lookupClass name with
  | none => { answer := none, state := r }
  | some c =>
    (act c).map some fun c' =>
      { r with classes := r.classes.modify name.lower fun _ => c' }

/-- Acts on a copy of a declared class and declares the copy.  Answers with what the
act answered and the class replaced; without such a class nothing is done. -/
def redeclareCopy (r : Registry φ) (name : ByteString)
    (act : ClassDecl φ → Outcome (ClassDecl φ) α) :
    Outcome (Registry φ) (Option (α × Option (ClassDecl φ))) :=
  match r.lookupClass name with
  | none => { answer := none, state := r }
  | some c =>
    let edited := act c
    let declared := r.declareClass edited.state
    { answer := some (edited.answer, declared.answer)
      events := edited.events ++ declared.events
      state := declared.state }

end Registry

end ExecContext
