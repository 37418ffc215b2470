/-!
# Shared objects

Some objects are handed around by several holders at once, and a holder can ask
whether two of them are one and the same object.  A shared object carries the
number of its identity beside its content; two objects of equal content may
still be two.

Main results:

- Theorem `Shared.same_iff`: being the same object is equality of identities.
-/

namespace ExecContext

/-- An object with an identity of its own. -/
structure Shared (α : Type) where
  id : Nat
  val : α
  deriving DecidableEq, Repr

/-- Whether two holders hold one and the same object. -/
def Shared.same {α : Type} (x y : Shared α) : Bool :=
  x.id == y.id

theorem Shared.same_iff {α : Type} (x y : Shared α) : x.same y = true ↔ x.id = y.id := by
  simp [Shared.same]

end ExecContext
