import ExecContext.Proofs.Context.Symbols
import ExecContext.Proofs.Symbol.Accounts
import ExecContext.Proofs.World.DepthLog

/-!
# The log accounts for the declarations

Whoever reads what a context reports knows how many functions and classes it has, and which
declarations replaced earlier ones; the same goes for a bare registry, where copies of classes
may be redeclared.  A constant is not reported unless its declaration is rejected, and then by
the context alone and with the error that the declaration ends in.

Main results:

- Theorem `Context.growsBy_step`: a step of a context adds to its symbols what its events
  report as new.
- Theorem `ContextWorld.growsBy_run`: so does a run, for each context by its own log.
- Theorem `ContextWorld.accounts_run`: the log of a context accounts for its declarations.
- Theorem `ContextWorld.declarations_accounted`: what is reported of declarations, by contexts,
  bare registries and tables.
-/

namespace ExecContext

variable {F φ : Type} {n : Nat}

namespace Context

/-! ## Events beside declarations -/

/-- What a frame step reports is not a declaration. -/
theorem aside_frameStep (c : Context F φ) (p : SavedPool F) (i : FrameStep F) :
    ∀ e ∈ (c.frameStep p i).events, e.declares = false := by
  cases i with
  | push f => simp [frameStep, push, Event.declares]
  | save f => simp [frameStep, save, Event.declares]
  | pop => cases h : c.stack.pop.1 <;> simp [frameStep, pop, h, Event.declares]
  | peek | frames | modifyTop => simp [frameStep]
  | duplicate => cases h : c.current <;> simp [frameStep, push, h, Event.declares]
  | inspect h | discard h => cases hc : p.get? h <;> simp [frameStep, hc]
  | restore h =>
    cases hc : p.get? h with
    | none => simp [frameStep, hc]
    | some chain =>
      cases hr : c.stack.restore chain <;> simp [frameStep, restore, hc, hr, Event.declares]
  | resume h =>
    cases hc : p.get? h with
    | none => simp [frameStep, hc]
    | some chain =>
      cases hr : c.stack.restore chain <;>
        simp [frameStep, restore, push, hc, hr, Event.declares]

/-- Nor is what a constant step reports. -/
theorem aside_constantStep (c : Context F φ) (i : ConstantStep) :
    ∀ e ∈ (c.constantStep i).events, e.declares = false := by
  cases i with
  | declare name v =>
    cases h : c.constants.declare name v <;>
      simp [constantStep, declareConstant, h, Event.declares]
  | resolve | isDefined => simp [constantStep]

/-- A declaration of a constant either is rejected and reports the error, or reports nothing. -/
theorem events_declareConstant (c : Context F φ) (name : ByteString) (v : Value) :
    (∃ e, (c.constantStep (.declare name v)).answer = .rejected e ∧
      (c.constantStep (.declare name v)).events = [.constantRejected e]) ∨
    (c.constantStep (.declare name v)).answer = .declared ∧
      (c.constantStep (.declare name v)).events = [] := by
  cases h : c.constants.declare name v with
  | error e =>
    left
    refine ⟨e, ?_, ?_⟩ <;> simp [constantStep, declareConstant, h]
  | ok t =>
    right
    constructor <;> simp [constantStep, declareConstant, h]

variable [FilterRule φ]

/-! ## Growth -/

/-- A step of a context adds to its symbols what its events report as new. -/
theorem growsBy_step (c : Context F φ) (p : SavedPool F) (s : ContextStep F φ) :
    c.symbols.GrowsBy (c.step p s).events (c.step p s).state.1.symbols := by
  cases s with
  | frame i =>
    have hkept : (c.step p (.frame i)).state.1.symbols = c.symbols := symbols_frameStep c p i
    rw [hkept]
    exact .of_aside (aside_frameStep c p i) rfl rfl
  | symbol i =>
    have hsymbols : (c.step p (.symbol i)).state.1.symbols = (c.symbols.symbolStep i).state :=
      symbols_symbolStep c i
    have hevents : (c.step p (.symbol i)).events = (c.symbols.symbolStep i).events :=
      events_symbolStep_eq c i
    rw [hsymbols, hevents]
    exact c.symbols.growsBy_symbolStep i
  | constant i =>
    have hkept : (c.step p (.constant i)).state.1.symbols = c.symbols :=
      symbols_constantStep c i
    rw [hkept]
    exact .of_aside (aside_constantStep c i) rfl rfl

end Context

namespace ContextWorld

variable [FilterRule φ]

/-- A run adds to the symbols of a context what the log of the context reports as new. -/
theorem growsBy_run (w : ContextWorld F φ n) (is : List (Addressed n (ContextStep F φ)))
    (t : Fin n) :
    (w.member t).symbols.GrowsBy (logOf (fun a => a.target == t) is (run step w is).1)
      ((run step w is).2.member t).symbols := by
  let Tells : Context F φ → List Event → Context F φ → Prop :=
    fun c es d => c.symbols.GrowsBy es d.symbols
  have silence : ∀ c, Tells c [] c := by
    intro c
    exact .silence c.symbols
  have told : ∀ c p s, Tells c (c.step p s).events (c.step p s).state.1 := by
    intro c p s
    exact c.growsBy_step p s
  apply told_run_logOf fun v : ContextWorld F φ n => (v.member t).symbols
  · exact Registry.GrowsBy.silence
  · exact Registry.GrowsBy.append
  · intro v a
    exact told_step silence told v a t

/-- After any run of fresh contexts the log of each accounts for its functions and classes. -/
theorem accounts_run (configs : Vector Config n) (is : List (Addressed n (ContextStep F φ)))
    (t : Fin n) :
    let w := (run step (create configs) is).2
    (w.member t).symbols.Accounts (fun s => ⟨t, .symbol s⟩ ∈ is) (logOn configs is t)
      fun s => (w.step ⟨t, .symbol s⟩).events := by
  intro w
  have hfresh : ((create configs : ContextWorld F φ n).member t).symbols = .empty := by
    simp [create, World.member, Context.create]
  have hhistory := symbols_run (create configs) is t
  have hgrows := growsBy_run (create configs) is t
  rw [hfresh] at hhistory hgrows
  have hcreated : Registry.empty.GrowsBy (Context.creationEvents (configs.get t))
      (Registry.empty : Registry φ) :=
    .of_aside (by simp [Context.creationEvents, Event.declares]) rfl rfl
  have htaken : ∀ s : SymbolStep φ, ⟨t, .symbol s⟩ ∈ is ↔ s ∈ symbolSteps t is := by
    intro s
    simp [symbolSteps, List.mem_filterMap, Addressed.symbolOn?_eq_some_iff]
  have hreports : ∀ s, (w.step ⟨t, .symbol s⟩).events =
      ((w.member t).symbols.symbolStep s).events := by
    intro s
    exact Context.events_symbolStep_eq (w.member t) s
  exact .of_history hhistory (fun f => htaken (.declareFunction f))
    (fun c => htaken (.declareClass c)) (hcreated.append hgrows) hreports

/-- After any run of fresh contexts the log of each accounts for its functions and classes, and
so does the log of a bare registry after any run of its own, in which copies of classes may have
been redeclared; a copy bears the name of a declared class, and is reported as made again.  A
declaration of a constant is reported by a context exactly if it is rejected, with the text of
the error; asking for constants is not reported, and a table by itself reports nothing. -/
theorem declarations_accounted (configs : Vector Config n)
    (is : List (Addressed n (ContextStep F φ))) (js : List (RegistryStep φ)) :
    let w := (run step (create configs) is).2
    let r := (run Registry.step .empty js).2
    (∀ t, (w.member t).symbols.Accounts (fun s => ⟨t, .symbol s⟩ ∈ is) (logOn configs is t)
      fun s => (w.step ⟨t, .symbol s⟩).events) ∧
    (r.Accounts (fun s => .symbol s ∈ js) ((run Registry.step .empty js).1.flatMap Reply.events)
      fun s => (r.step (.symbol s)).events) ∧
    (∀ name s, (r.step (.redeclareCopy name s)).events =
      (r.lookupClass name).toList.map fun c => .classRedeclared c.displayName) ∧
    (∀ t name v,
      let o := w.step ⟨t, .constant (.declare name v)⟩
      (∃ e, o.answer.result = .constant (.rejected e) ∧ o.events = [.constantRejected e] ∧
        (Event.constantRejected e).fields = [("error", e.message)]) ∨
      o.answer.result = .constant .declared ∧ o.events = []) ∧
    (∀ t name, (w.step ⟨t, .constant (.resolve name)⟩).events = [] ∧
      (w.step ⟨t, .constant (.isDefined name)⟩).events = []) ∧
    ∀ (u : ConstantTable) (i : ConstantStep), (u.step i).events = [] := by
  intro w r
  refine ⟨accounts_run configs is, Registry.accounts_run js, ?_, ?_, ?_, ConstantTable.events_step⟩
  · intro name s
    exact Registry.events_redeclareCopy (Registry.keyed_run js) name s
  · intro t name v o
    rcases (w.member t).events_declareConstant name v with ⟨e, hanswer, hevents⟩ |
      ⟨hanswer, hevents⟩
    · exact Or.inl ⟨e, congrArg ContextAnswer.constant hanswer, hevents, rfl⟩
    · exact Or.inr ⟨congrArg ContextAnswer.constant hanswer, hevents⟩
  · intro t name
    exact ⟨rfl, rfl⟩

end ContextWorld

end ExecContext
