import ExecContext.Context.Lemmas
import ExecContext.Proofs.Run.View

/-!
# The symbols of a context

The symbols of a context are a registry that its symbol steps are taken on; frame and
constant steps, and steps of other contexts, leave it alone.  What the context answers to a
symbol step is what its registry answers, save that a declaration does not tell what it
replaces.

Main results:

- Theorem `Context.answer_symbolStep_eq`: a symbol step answers as on the bare registry.
- Theorem `Context.events_symbolStep_eq`: it emits the same events.
- Theorem `ContextWorld.symbols_run`: a run, seen on the symbols of one context.
-/

namespace ExecContext

variable {F φ : Type} {n : Nat}

/-- What a context passes on of an answer of its registry. -/
def SymbolStep.passesOn : SymbolStep φ → SymbolAnswer φ → SymbolAnswer φ
  | .declareFunction _, _ | .declareClass _, _ => .declared
  | _, answer => answer

/-- The symbol step that a step is, if it is one on the context of this number. -/
def Addressed.symbolOn? (t : Fin n) (a : Addressed n (ContextStep F φ)) : Option (SymbolStep φ) :=
  match a.step with
  | .symbol i => if a.target = t then some i else none
  | .frame _ | .constant _ => none

/-- A step on the symbols of a context is addressed to it. -/
theorem Addressed.symbolOn?_eq_some_iff {t : Fin n} {a : Addressed n (ContextStep F φ)}
    {i : SymbolStep φ} : a.symbolOn? t = some i ↔ a = ⟨t, .symbol i⟩ := by
  rcases a with ⟨u, s⟩
  cases s with
  | frame | constant => simp [symbolOn?]
  | symbol j => simp [symbolOn?]

/-- The symbol steps that a run takes on the context of this number, in order. -/
def symbolSteps (t : Fin n) (is : List (Addressed n (ContextStep F φ))) : List (SymbolStep φ) :=
  is.filterMap (Addressed.symbolOn? t)

variable [FilterRule φ]

namespace Context

/-- A symbol step answers as on the bare registry. -/
theorem answer_symbolStep_eq (c : Context F φ) (i : SymbolStep φ) :
    (c.symbolStep i).answer = i.passesOn (c.symbols.symbolStep i).answer := by
  cases i <;> rfl

/-- A symbol step emits what it does on the bare registry. -/
theorem events_symbolStep_eq (c : Context F φ) (i : SymbolStep φ) :
    (c.symbolStep i).events = (c.symbols.symbolStep i).events := by
  cases i <;> rfl

end Context

namespace ContextWorld

/-- A step on the symbols of a context does to them what it does to the bare registry. -/
theorem symbols_step_self (w : ContextWorld F φ n) {t : Fin n}
    {a : Addressed n (ContextStep F φ)} {i : SymbolStep φ} (ha : a.symbolOn? t = some i) :
    ((w.step a).state.member t).symbols = ((w.member t).symbols.symbolStep i).state := by
  rw [Addressed.symbolOn?_eq_some_iff] at ha
  subst ha
  rw [member_step_self]
  exact Context.symbols_symbolStep (w.member t) i

/-- Every other step leaves the symbols of a context alone. -/
theorem symbols_step_other (w : ContextWorld F φ n) {t : Fin n}
    {a : Addressed n (ContextStep F φ)} (ha : a.symbolOn? t = none) :
    ((w.step a).state.member t).symbols = (w.member t).symbols := by
  rcases a with ⟨u, s⟩
  by_cases hu : u = t
  · subst hu
    rw [member_step_self]
    cases s with
    | frame i => exact Context.symbols_frameStep (w.member u) w.saved i
    | symbol i => simp [Addressed.symbolOn?] at ha
    | constant i => exact Context.symbols_constantStep (w.member u) i
  · rw [member_step_other w u s (Ne.symm hu)]

/-- A run does to the symbols of a context what its steps on them do to the bare registry. -/
theorem symbols_run (w : ContextWorld F φ n) (is : List (Addressed n (ContextStep F φ)))
    (t : Fin n) :
    ((run step w is).2.member t).symbols =
      (run Registry.symbolStep (w.member t).symbols (symbolSteps t is)).2 := by
  let view : ContextWorld F φ n → Registry φ := fun v => (v.member t).symbols
  have self : ∀ v a i, a.symbolOn? t = some i →
      view (step v a).state = ((view v).symbolStep i).state := by
    intro v a i ha
    exact symbols_step_self v ha
  have other : ∀ v a, a.symbolOn? t = none → view (step v a).state = view v := by
    intro v a ha
    exact symbols_step_other v ha
  exact view_run_filterMap self other w is

end ContextWorld

end ExecContext
