import ExecContext.Class.Reading
import ExecContext.Outcome

/-!
# Steps on a class

The steps that programs and hosts take on a class, as data, with what each
answers.  No step changes the class's name or reports anything to the log.

Main results:

- Theorem `ClassDecl.name_step`: a step keeps the name.
- Theorem `ClassDecl.events_step`: a step emits nothing.
-/

namespace ExecContext

/-- A step on a class. -/
inductive ClassStep (φ : Type) where
  | declare (name : ByteString) (decl : PropertyDecl)
  /-- Write the declaration of a property that is declared already. -/
  | edit (name : ByteString) (decl : PropertyDecl)
  | property (name : ByteString)
  | addFilter (purpose : Purpose) (filter : φ)
  /-- Read a table for a reason; without a table, that of a fresh instance. -/
  | read (reason : Purpose) (table : Option PropertyTable)
  | instanceProperties
  | defaultProperties
  | setConstructor (body : Option (Shared Body))
  | describe

/-- What a step on a class answers. -/
inductive ClassAnswer (φ : Type) where
  | done
  /-- So many properties are declared now. -/
  | declared (properties : Nat)
  /-- Whether there was a declaration to edit. -/
  | edited (found : Bool)
  | property (name : ByteString) (found : Option PropertyDecl)
  | reading (result : Reading φ)
  | layout (properties : Table PropertyDecl)
  | defaults (table : PropertyTable)
  | description (c : ClassDecl φ)

namespace ClassDecl

variable {φ : Type} [FilterRule φ]

/-- Takes one step. -/
def step (c : ClassDecl φ) : ClassStep φ → Outcome (ClassDecl φ) (ClassAnswer φ)
  | .declare name decl =>
    let c' := c.declareProperty name decl
    { answer := .declared c'.properties.size, state := c' }
  | .edit name decl =>
    { answer := .edited (c.properties.contains name)
      state := c.editProperty name fun _ => decl }
  | .property name => { answer := .property name (c.properties.get? name), state := c }
  | .addFilter purpose filter => { answer := .done, state := c.addFilter purpose filter }
  | .read reason table =>
    { answer := .reading (c.read (table.getD c.defaultProperties) reason), state := c }
  | .instanceProperties => { answer := .layout c.instanceProperties, state := c }
  | .defaultProperties => { answer := .defaults c.defaultProperties, state := c }
  | .setConstructor body => { answer := .done, state := { c with constructorBody := body } }
  | .describe => { answer := .description c, state := c }

/-- A step keeps the name of the class. -/
@[simp]
theorem name_step (c : ClassDecl φ) (s : ClassStep φ) : (c.step s).state.name = c.name := by
  cases s <;> rfl

/-- A step on a class emits nothing. -/
@[simp]
theorem events_step (c : ClassDecl φ) (s : ClassStep φ) : (c.step s).events = [] := by
  cases s <;> rfl

end ClassDecl

end ExecContext
