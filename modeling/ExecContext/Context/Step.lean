import ExecContext.Context.Basic
import ExecContext.Symbol.Step
import ExecContext.World

/-!
# Steps on contexts

A step on a context is a step on its frames, its symbols or its constants.  Each
is carried out by the context's own operations, which report to the log; contexts
side by side share their saved chains.
-/

namespace ExecContext

/-- A step on a context. -/
inductive ContextStep (F φ : Type) where
  | frame (step : FrameStep F)
  | symbol (step : SymbolStep φ)
  | constant (step : ConstantStep)

/-- What a step on a context answers. -/
inductive ContextAnswer (F φ : Type) where
  | frame (answer : FrameAnswer F)
  | symbol (answer : SymbolAnswer φ)
  | constant (answer : ConstantAnswer)

namespace Context

variable {F φ : Type}

/-- Takes one step on the frames of a context and the saved chains. -/
def frameStep (c : Context F φ) (p : SavedPool F) :
    FrameStep F → Outcome (Context F φ × SavedPool F) (FrameAnswer F)
  | .push f => (c.push f).map (fun _ => .done) fun c' => (c', p)
  | .pop => c.pop.map .frame fun c' => (c', p)
  | .peek => { answer := .frame c.current, state := (c, p) }
  | .frames => { answer := .frames c.frames, state := (c, p) }
  | .modifyTop change =>
    { answer := .acted c.current.isSome, state := (c.modifyCurrent change, p) }
  | .duplicate =>
    match c.current with
    | none => { answer := .acted false, state := (c, p) }
    | some f => (c.push f).map (fun _ => .acted true) fun c' => (c', p)
  | .save f =>
    let o := c.save f
    o.map (fun chain => .saved p.nextHandle chain) fun c' => (c', p.issue o.answer)
  | .inspect h =>
    match p.get? h with
    | none => { answer := .noHandle, state := (c, p) }
    | some chain => { answer := .chain chain, state := (c, p) }
  | .discard h =>
    match p.get? h with
    | none => { answer := .noHandle, state := (c, p) }
    | some _ => { answer := .done, state := (c, p.remove h) }
  | .restore h =>
    match p.get? h with
    | none => { answer := .noHandle, state := (c, p) }
    | some chain =>
      (c.restore chain).map
        (fun
          | .error e => .refused e
          | .ok f => .restored f)
        fun c' => (c', p.remove h)
  | .resume h =>
    match p.get? h with
    | none => { answer := .noHandle, state := (c, p) }
    | some chain =>
      let restored := c.restore chain
      match restored.answer with
      | .error e =>
        { answer := .refused e, events := restored.events, state := (restored.state, p.remove h) }
      | .ok f =>
        let pushed := restored.state.push f
        { answer := .done
          events := restored.events ++ pushed.events
          state := (pushed.state, p.remove h) }

/-- Takes one step on the constants of a context. -/
def constantStep (c : Context F φ) : ConstantStep → Outcome (Context F φ) ConstantAnswer
  | .declare name v =>
    (c.declareConstant name v).map
      (fun
        | .error e => .rejected e
        | .ok _ => .declared)
      id
  | .resolve name => { answer := .value (c.fetchConstant name), state := c }
  | .isDefined name => { answer := .defined (c.isConstantDefined name), state := c }

variable [FilterRule φ]

/-- Takes one step on the symbols of a context.  A declaration does not tell what it
replaces. -/
def symbolStep (c : Context F φ) : SymbolStep φ → Outcome (Context F φ) (SymbolAnswer φ)
  | .declareFunction f => (c.declareFunction f).map (fun _ => .declared) id
  | .declareClass d => (c.declareClass d).map (fun _ => .declared) id
  | .lookupFunction name => { answer := .function (c.lookupFunction name), state := c }
  | .lookupClass name => { answer := .classDecl (c.lookupClass name), state := c }
  | .hasFunction name => { answer := .present (c.symbols.hasFunction name), state := c }
  | .hasClass name => { answer := .present (c.symbols.hasClass name), state := c }
  | .counts =>
    { answer := .counts c.symbols.functionCount c.symbols.classCount, state := c }
  | .functionNames => { answer := .names c.symbols.functionNames, state := c }
  | .classNames => { answer := .names c.symbols.classNames, state := c }
  | .updateClass name s => (c.updateClass name fun d => d.step s).map .updated id
  | .runsConstructor name =>
    { answer := .runsConstructor (c.symbols.runsConstructor name), state := c }

/-- Takes one step on a context and the saved chains. -/
def step (c : Context F φ) (p : SavedPool F) :
    ContextStep F φ → Outcome (Context F φ × SavedPool F) (ContextAnswer F φ)
  | .frame s => (c.frameStep p s).map .frame id
  | .symbol s => (c.symbolStep s).map .symbol fun c' => (c', p)
  | .constant s => (c.constantStep s).map .constant fun c' => (c', p)

end Context

/-- Contexts side by side. -/
abbrev ContextWorld (F φ : Type) (n : Nat) :=
  World (Context F φ) F n

namespace ContextWorld

variable {F φ : Type} {n : Nat}

/-- Contexts of the given configurations, and no chain saved. -/
def create (configs : Vector Config n) : ContextWorld F φ n :=
  { members := configs.map Context.create }

theorem member_create (configs : Vector Config n) (t : Fin n) :
    (create configs : ContextWorld F φ n).member t = .create (configs.get t) :=
  Vector.getElem_map Context.create t.isLt

/-- Takes one step on one of the contexts. -/
def step [FilterRule φ] (w : ContextWorld F φ n) (a : Addressed n (ContextStep F φ)) :
    Outcome (ContextWorld F φ n) (Observed (ContextAnswer F φ)) :=
  World.step Context.stack Context.step w a

theorem member_step_self [FilterRule φ] (w : ContextWorld F φ n) (t : Fin n)
    (s : ContextStep F φ) :
    (w.step ⟨t, s⟩).state.member t = ((w.member t).step w.saved s).state.1 :=
  World.member_step_self _ _ w ⟨t, s⟩

theorem member_step_other [FilterRule φ] (w : ContextWorld F φ n) (t : Fin n)
    (s : ContextStep F φ) {u : Fin n} (hu : u ≠ t) :
    (w.step ⟨t, s⟩).state.member u = w.member u :=
  World.member_step_other _ _ w ⟨t, s⟩ hu

end ContextWorld

end ExecContext
