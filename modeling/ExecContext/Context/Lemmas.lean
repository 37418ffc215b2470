import ExecContext.Context.Step

/-!
# A context and its parts

A step on a context does to one part what the same step does to that part on its
own, and leaves the other two alone.

Main results:

- Theorems `Context.answer_frameStep` and `Context.stack_frameStep`: frame steps
  answer and act as on the bare stack.
- Theorems `Context.answer_constantStep` and `Context.constants_constantStep`:
  constant steps answer and act as on the bare table.
- Theorem `Context.symbols_symbolStep`: symbol steps act as on the bare registry.
- Theorems `Context.symbols_frameStep`, `Context.constants_frameStep`,
  `Context.stack_constantStep`, `Context.symbols_constantStep`,
  `Context.stack_symbolStep` and `Context.constants_symbolStep`: the other parts are
  left alone.
-/

namespace ExecContext

namespace Context

variable {F φ : Type}

/-! ## Frame steps -/

/-- A frame step answers as on the bare stack. -/
theorem answer_frameStep (c : Context F φ) (p : SavedPool F) (i : FrameStep F) :
    (c.frameStep p i).answer = (c.stack.step p i).answer := by
  cases i with
  | push | pop | peek | frames | modifyTop | save => rfl
  | duplicate => cases h : c.stack.peek <;> simp [frameStep, current, FrameStack.step, h]
  | inspect k => cases h : p.get? k <;> simp [frameStep, FrameStack.step, h]
  | discard k => cases h : p.get? k <;> simp [frameStep, FrameStack.step, h]
  | restore k =>
    cases h : p.get? k with
    | none => simp [frameStep, FrameStack.step, h]
    | some chain =>
      cases hr : c.stack.restore chain <;> simp [frameStep, restore, FrameStack.step, h, hr]
  | resume k =>
    cases h : p.get? k with
    | none => simp [frameStep, FrameStack.step, h]
    | some chain =>
      cases hr : c.stack.restore chain <;> simp [frameStep, restore, FrameStack.step, h, hr]

/-- A frame step leaves the stack and the saved chains as on the bare stack. -/
theorem stack_frameStep (c : Context F φ) (p : SavedPool F) (i : FrameStep F) :
    ((c.frameStep p i).state.1.stack, (c.frameStep p i).state.2) =
      (c.stack.step p i).state := by
  cases i with
  | push | pop | peek | frames | modifyTop | save => rfl
  | duplicate =>
    cases h : c.stack.peek <;> simp [frameStep, current, FrameStack.step, h, push]
  | inspect k => cases h : p.get? k <;> simp [frameStep, FrameStack.step, h]
  | discard k => cases h : p.get? k <;> simp [frameStep, FrameStack.step, h]
  | restore k =>
    cases h : p.get? k with
    | none => simp [frameStep, FrameStack.step, h]
    | some chain =>
      cases hr : c.stack.restore chain <;> simp [frameStep, restore, FrameStack.step, h, hr]
  | resume k =>
    cases h : p.get? k with
    | none => simp [frameStep, FrameStack.step, h]
    | some chain =>
      cases hr : c.stack.restore chain <;>
        simp [frameStep, restore, push, FrameStack.step, h, hr]

@[simp]
theorem symbols_frameStep (c : Context F φ) (p : SavedPool F) (i : FrameStep F) :
    (c.frameStep p i).state.1.symbols = c.symbols := by
  cases i with
  | push | pop | peek | frames | modifyTop | save => rfl
  | duplicate => cases h : c.current <;> simp [frameStep, h]
  | inspect k => cases h : p.get? k <;> simp [frameStep, h]
  | discard k => cases h : p.get? k <;> simp [frameStep, h]
  | restore k => cases h : p.get? k <;> simp [frameStep, h]
  | resume k =>
    cases h : p.get? k with
    | none => simp [frameStep, h]
    | some chain => cases hr : (c.restore chain).answer <;> simp [frameStep, h, hr]

@[simp]
theorem constants_frameStep (c : Context F φ) (p : SavedPool F) (i : FrameStep F) :
    (c.frameStep p i).state.1.constants = c.constants := by
  cases i with
  | push | pop | peek | frames | modifyTop | save => rfl
  | duplicate => cases h : c.current <;> simp [frameStep, h]
  | inspect k => cases h : p.get? k <;> simp [frameStep, h]
  | discard k => cases h : p.get? k <;> simp [frameStep, h]
  | restore k => cases h : p.get? k <;> simp [frameStep, h]
  | resume k =>
    cases h : p.get? k with
    | none => simp [frameStep, h]
    | some chain => cases hr : (c.restore chain).answer <;> simp [frameStep, h, hr]

/-! ## Constant steps -/

/-- A constant step answers as on the bare table. -/
theorem answer_constantStep (c : Context F φ) (i : ConstantStep) :
    (c.constantStep i).answer = (c.constants.step i).answer := by
  cases i with
  | resolve | isDefined => rfl
  | declare name v =>
    cases h : c.constants.declare name v <;>
      simp [constantStep, declareConstant, ConstantTable.step, h]

/-- A constant step leaves the constants as on the bare table. -/
theorem constants_constantStep (c : Context F φ) (i : ConstantStep) :
    (c.constantStep i).state.constants = (c.constants.step i).state := by
  cases i with
  | resolve | isDefined => rfl
  | declare name v =>
    cases h : c.constants.declare name v <;>
      simp [constantStep, declareConstant, ConstantTable.step, h]

@[simp]
theorem stack_constantStep (c : Context F φ) (i : ConstantStep) :
    (c.constantStep i).state.stack = c.stack := by
  cases i with
  | resolve | isDefined => rfl
  | declare name v => exact stack_declareConstant c name v

@[simp]
theorem symbols_constantStep (c : Context F φ) (i : ConstantStep) :
    (c.constantStep i).state.symbols = c.symbols := by
  cases i with
  | resolve | isDefined => rfl
  | declare name v =>
    cases h : c.constants.declare name v <;> simp [constantStep, declareConstant, h]

/-- A constant step changes the constants, as it does the bare table. -/
theorem state_constantStep (c : Context F φ) (i : ConstantStep) :
    (c.constantStep i).state = { c with constants := (c.constants.step i).state } := by
  cases i with
  | resolve | isDefined => rfl
  | declare name v =>
    cases h : c.constants.declare name v <;>
      simp [constantStep, declareConstant, ConstantTable.step, h]

/-! ## Symbol steps -/

variable [FilterRule φ]

/-- A symbol step changes the symbols, as it does the bare registry. -/
theorem state_symbolStep (c : Context F φ) (i : SymbolStep φ) :
    (c.symbolStep i).state = { c with symbols := (c.symbols.symbolStep i).state } := by
  cases i <;> rfl

/-- A symbol step leaves the symbols as on the bare registry. -/
theorem symbols_symbolStep (c : Context F φ) (i : SymbolStep φ) :
    (c.symbolStep i).state.symbols = (c.symbols.symbolStep i).state := by
  cases i <;> rfl

@[simp]
theorem stack_symbolStep (c : Context F φ) (i : SymbolStep φ) :
    (c.symbolStep i).state.stack = c.stack := by
  cases i <;> rfl

@[simp]
theorem constants_symbolStep (c : Context F φ) (i : SymbolStep φ) :
    (c.symbolStep i).state.constants = c.constants := by
  cases i <;> rfl

end Context

end ExecContext
