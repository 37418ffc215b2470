import ExecContext.Symbol.Lemmas
import ExecContext.Symbol.Step

/-!
# Effects of symbol steps

Only a few steps do anything to a registry: they declare a function, declare a class, or change a
class in its place.  All others ask; whatever they answer, they leave the registry as it is and
report nothing.

Main results:

- Theorem `SymbolStep.effectCases`: a step has one of these effects, or it asks.
- Theorems `Registry.state_symbolStep_of_asks` and `Registry.events_symbolStep_of_asks`: asking
  does nothing.
-/

namespace ExecContext

variable {φ : Type}

namespace SymbolStep

/-- Whether a step only asks. -/
def asks : SymbolStep φ → Bool
  | .declareFunction _ | .declareClass _ | .updateClass _ _ => false
  | _ => true

/-- A step declares a function, declares a class, changes a class in its place, or asks. -/
@[elab_as_elim]
theorem effectCases {motive : SymbolStep φ → Prop}
    (declareFunction : ∀ f, motive (.declareFunction f))
    (declareClass : ∀ c, motive (.declareClass c))
    (updateClass : ∀ name s, motive (.updateClass name s))
    (query : ∀ i, i.asks = true → motive i) (i : SymbolStep φ) : motive i := by
  cases i with
  | declareFunction f => exact declareFunction f
  | declareClass c => exact declareClass c
  | updateClass name s => exact updateClass name s
  | _ => exact query _ rfl

end SymbolStep

namespace Registry

variable [FilterRule φ]

/-- Asking leaves the registry as it is, -/
theorem state_symbolStep_of_asks (r : Registry φ) {i : SymbolStep φ} (h : i.asks = true) :
    (r.symbolStep i).state = r := by
  cases i with
  | declareFunction | declareClass | updateClass => cases h
  | _ => rfl

/-- and reports nothing. -/
theorem events_symbolStep_of_asks (r : Registry φ) {i : SymbolStep φ} (h : i.asks = true) :
    (r.symbolStep i).events = [] := by
  cases i with
  | declareFunction | declareClass | updateClass => cases h
  | _ => rfl

end Registry

end ExecContext
