import ExecContext.ByteString.Utf8
import ExecContext.Class.Property
import ExecContext.Class.Purpose
import ExecContext.Function

/-!
# Classes

A class has a name, perhaps a constructor body that it shares with a function,
its properties in declaration order, and the filters that hosts registered for
reading instances.  The type `φ` names the filters; what a filter keeps is said
by `FilterRule`.

Main results:

- Theorem `ClassDecl.names_instanceProperties`: the instance layout is the
  declarations without the static ones.
- Theorem `ClassDecl.names_defaultProperties`: a fresh instance has a value for
  exactly the properties of the layout.
-/

namespace ExecContext

/-- A class as it is declared.  Its name never changes. -/
structure ClassDecl (φ : Type) where
  name : ByteString
  constructorBody : Option (Shared Body) := none
  properties : Table PropertyDecl := .empty
  /-- Each filter with the purpose it was registered for, in order. -/
  filters : List (Purpose × φ) := []
  deriving DecidableEq

/-- Says which properties a filter keeps when an instance of a class is read. -/
class FilterRule (φ : Type) where
  keeps : φ → ClassDecl φ → ByteString → Value → Bool

namespace ClassDecl

variable {φ : Type}

/-- The name as text. -/
def displayName (c : ClassDecl φ) : String :=
  c.name.display

/-- The class with this constructor body. -/
def withConstructor (c : ClassDecl φ) (body : Shared Body) : ClassDecl φ :=
  { c with constructorBody := some body }

/-- Declares a property, over any earlier declaration of that name. -/
def declareProperty (c : ClassDecl φ) (name : ByteString) (decl : PropertyDecl) : ClassDecl φ :=
  { c with properties := c.properties.insert name decl }

/-- Changes the declaration of a property, if there is one. -/
def editProperty (c : ClassDecl φ) (name : ByteString) (f : PropertyDecl → PropertyDecl) :
    ClassDecl φ :=
  { c with properties := c.properties.modify name f }

/-- Registers a filter for a purpose, after those registered before. -/
def addFilter (c : ClassDecl φ) (purpose : Purpose) (filter : φ) : ClassDecl φ :=
  { c with filters := c.filters ++ [(purpose, filter)] }

/-- The instance layout: the declarations that are not static, in order. -/
def instanceProperties (c : ClassDecl φ) : Table PropertyDecl :=
  c.properties.filter fun _ decl => !decl.isStatic

/-- What a fresh instance holds: each property of the layout with its default, or
with null when it has none. -/
def defaultProperties (c : ClassDecl φ) : PropertyTable :=
  c.instanceProperties.map fun decl => decl.default.getD .null

/-! ## Layout -/

theorem names_instanceProperties (c : ClassDecl φ) :
    c.instanceProperties.names =
      (c.properties.entries.filter fun e => !e.2.isStatic).map Prod.fst :=
  rfl

theorem names_defaultProperties (c : ClassDecl φ) :
    c.defaultProperties.names = c.instanceProperties.names := by
  simp [defaultProperties, Table.names, Table.map]

@[simp]
theorem name_declareProperty (c : ClassDecl φ) (name : ByteString) (decl : PropertyDecl) :
    (c.declareProperty name decl).name = c.name :=
  rfl

@[simp]
theorem name_editProperty (c : ClassDecl φ) (name : ByteString)
    (f : PropertyDecl → PropertyDecl) : (c.editProperty name f).name = c.name :=
  rfl

@[simp]
theorem name_addFilter (c : ClassDecl φ) (purpose : Purpose) (filter : φ) :
    (c.addFilter purpose filter).name = c.name :=
  rfl

end ClassDecl

end ExecContext
