import ExecContext.Constant.Table
import ExecContext.Outcome

/-!
# Steps on a constant table

The steps that programs take on constants, as data, with what each answers.  A
table reports nothing to the log; that is left to the context that owns it.

Main results:

- Theorem `ConstantTable.state_resolve` and its companion: asking changes nothing.
-/

namespace ExecContext

/-- A step on constants. -/
inductive ConstantStep where
  | declare (name : ByteString) (value : Value)
  | resolve (name : ByteString)
  | isDefined (name : ByteString)
  deriving DecidableEq

/-- What a step on constants answers. -/
inductive ConstantAnswer where
  | declared
  | rejected (error : ConstantError)
  | value (found : Option Value)
  | defined (answer : Bool)
  deriving DecidableEq

namespace ConstantTable

/-- Takes one step. -/
def step (t : ConstantTable) : ConstantStep → Outcome ConstantTable ConstantAnswer
  | .declare name v =>
    match t.declare name v with
    | .error e => { answer := .rejected e, state := t }
    | .ok t' => { answer := .declared, state := t' }
  | .resolve name => { answer := .value (t.resolve name), state := t }
  | .isDefined name => { answer := .defined (t.isDefined name), state := t }

/-- Takes one step and answers with the size of the table after it. -/
def observedStep (t : ConstantTable) (s : ConstantStep) :
    Outcome ConstantTable (Observed ConstantAnswer) :=
  let o := t.step s
  { answer := { result := o.answer, size := o.state.size, isEmpty := o.state.isEmpty }
    events := o.events
    state := o.state }

@[simp]
theorem state_resolve (t : ConstantTable) (name : ByteString) :
    (t.step (.resolve name)).state = t :=
  rfl

@[simp]
theorem state_isDefined (t : ConstantTable) (name : ByteString) :
    (t.step (.isDefined name)).state = t :=
  rfl

/-- A table never emits an event. -/
@[simp]
theorem events_step (t : ConstantTable) (s : ConstantStep) : (t.step s).events = [] := by
  cases s with
  | declare name v =>
    cases h : t.declare name v <;> simp [step, h]
  | resolve name => rfl
  | isDefined name => rfl

end ConstantTable

end ExecContext
