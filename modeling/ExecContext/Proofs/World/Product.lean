import ExecContext.Proofs.Context.Constants
import ExecContext.Proofs.Context.Stacks
import ExecContext.Proofs.Context.Symbols
import ExecContext.Proofs.Run.Transcript

/-!
# Contexts as the product of their parts

A context does nothing that its parts would not do by themselves.  Whatever contexts there
are, and however their steps are interleaved, the frame steps answer as on bare stacks that
share their saved chains, and the symbol and constant steps of each context as on a registry
and a table of its own.  The chains couple the contexts, so that the frame steps of all of
them make up one run; symbols and constants make up one run for each context.

Main results:

- Theorem `ContextWorld.answer_frame`: a frame step answers, and finds the stack, as among
  the bare stacks.
- Theorem `ContextWorld.symbols_run_frameSteps`: frame steps keep all symbols and constants.
- Theorem `ContextWorld.product_of_parts`: a run of contexts as the product of runs of their
  parts.
-/

namespace ExecContext

variable {F φ α β : Type} {n : Nat}

/-- The same observation with another answer. -/
def Observed.map (f : α → β) (o : Observed α) : Observed β :=
  { o with result := f o.result }

namespace ContextWorld

variable [FilterRule φ]

/-! ## Frames -/

/-- A frame step answers, and leaves the stack as deep, as among the bare stacks. -/
theorem answer_frame (w : ContextWorld F φ n) (t : Fin n) (i : FrameStep F) :
    (w.step ⟨t, .frame i⟩).answer = (w.bare.step ⟨t, i⟩).answer.map .frame := by
  have hanswer := Context.answer_frameStep (w.member t) w.saved i
  have hstack := congrArg Prod.fst (Context.stack_frameStep (w.member t) w.saved i)
  rw [← member_bare] at hanswer hstack
  simp only [step, StackWorld.step, World.step, Context.step, Observed.map, Outcome.answer_map,
    Outcome.state_map, hanswer, saved_bare, id_eq, ← hstack]

/-- The frame steps of a run answer as the run of bare stacks that takes them alone. -/
theorem transcript_frame (w : ContextWorld F φ n) (is : List (Addressed n (ContextStep F φ))) :
    transcript Addressed.frame? is (run step w is).1 =
      (transcript some (frameSteps is) (run StackWorld.step w.bare (frameSteps is)).1).map
        fun e => (e.1, e.2.map .frame) := by
  have self : ∀ (v : ContextWorld F φ n) (a : Addressed n (ContextStep F φ)) b,
      a.frame? = some b → (v.step a).state.bare = (v.bare.step b).state ∧
        (v.step a).answer = (v.bare.step b).answer.map .frame := by
    rintro v ⟨t, s⟩ b ha
    cases s with
    | symbol | constant => cases ha
    | frame i =>
      cases ha
      exact ⟨bare_step_frame v t i, answer_frame v t i⟩
  have other : ∀ (v : ContextWorld F φ n) (a : Addressed n (ContextStep F φ)),
      a.frame? = none → (v.step a).state.bare = v.bare := by
    intro v a ha
    exact bare_step_other v ha
  have hrun := transcript_run bare StackWorld.step id (fun _ o => o.map .frame) self other w is
  simp only [id_eq, Prod.mk.eta, List.map_id'] at hrun
  exact hrun

/-! ## Symbols and constants -/

/-- The symbol steps that a run takes on a context answer as the run of its registry that takes
them alone. -/
theorem transcript_symbol (w : ContextWorld F φ n) (is : List (Addressed n (ContextStep F φ)))
    (t : Fin n) :
    (transcript (Addressed.symbolOn? t) is (run step w is).1).map (fun e => (e.1, e.2.result)) =
      (transcript some (symbolSteps t is)
        (run Registry.symbolStep (w.member t).symbols (symbolSteps t is)).1).map
          fun e => (e.1, .symbol (e.1.passesOn e.2)) := by
  let view : ContextWorld F φ n → Registry φ := fun v => (v.member t).symbols
  have self : ∀ v a i, a.symbolOn? t = some i →
      view (step v a).state = ((view v).symbolStep i).state ∧
        (step v a).answer.result = .symbol (i.passesOn ((view v).symbolStep i).answer) := by
    intro v a i ha
    refine ⟨symbols_step_self v ha, ?_⟩
    cases Addressed.symbolOn?_eq_some_iff.mp ha
    exact congrArg ContextAnswer.symbol (Context.answer_symbolStep_eq (v.member t) i)
  have other : ∀ v a, a.symbolOn? t = none → view (step v a).state = view v := by
    intro v a ha
    exact symbols_step_other v ha
  exact transcript_run view Registry.symbolStep Observed.result
    (fun i b => .symbol (i.passesOn b)) self other w is

/-- The constant steps that a run takes on a context answer as the run of its table that takes
them alone. -/
theorem transcript_constant (w : ContextWorld F φ n) (is : List (Addressed n (ContextStep F φ)))
    (t : Fin n) :
    (transcript (Addressed.constantOn? t) is (run step w is).1).map (fun e => (e.1, e.2.result)) =
      (transcript some (is.filterMap (Addressed.constantOn? t))
        (run ConstantTable.step (w.member t).constants
          (is.filterMap (Addressed.constantOn? t))).1).map
          fun e => (e.1, .constant e.2) := by
  let view : ContextWorld F φ n → ConstantTable := fun v => (v.member t).constants
  have self : ∀ v a i, a.constantOn? t = some i →
      view (step v a).state = ((view v).step i).state ∧
        (step v a).answer.result = .constant ((view v).step i).answer := by
    intro v a i ha
    refine ⟨constants_step_self v ha, ?_⟩
    rcases a with ⟨u, s⟩
    cases s with
    | frame | symbol => cases ha
    | constant j =>
      obtain ⟨rfl, rfl⟩ : u = t ∧ j = i := by simpa [Addressed.constantOn?] using ha
      exact congrArg ContextAnswer.constant (Context.answer_constantStep (v.member u) j)
  have other : ∀ v a, a.constantOn? t = none → view (step v a).state = view v := by
    intro v a ha
    exact constants_step_other v ha
  exact transcript_run view ConstantTable.step Observed.result (fun _ b => .constant b) self
    other w is

/-- Frame steps, refused ones among them, keep the symbols and the constants of all contexts. -/
theorem symbols_run_frameSteps (w : ContextWorld F φ n) (js : List (Addressed n (FrameStep F)))
    (t : Fin n) :
    let later := (run step w (js.map fun b => ⟨b.target, .frame b.step⟩)).2.member t
    later.symbols = (w.member t).symbols ∧ later.constants = (w.member t).constants := by
  intro later
  have hsymbols : symbolSteps t (js.map fun b => (⟨b.target, .frame b.step⟩ :
      Addressed n (ContextStep F φ))) = [] := by
    simp [symbolSteps, Addressed.symbolOn?]
  have hconstants : (js.map fun b => (⟨b.target, .frame b.step⟩ :
      Addressed n (ContextStep F φ))).filterMap (Addressed.constantOn? t) = [] := by
    simp [Addressed.constantOn?]
  constructor
  · change ((run step w _).2.member t).symbols = _
    rw [symbols_run, hsymbols, run_nil]
  · change ((run step w _).2.member t).constants = _
    rw [constants_run, hconstants, run_nil]

/-! ## The product -/

/-- The run that takes the steps `is` on fresh contexts is the product of runs of their parts. -/
structure IsProduct (configs : Vector Config n) (is : List (Addressed n (ContextStep F φ))) :
    Prop where
  /-- Frame steps answer, with depth and emptiness, as when they alone are taken, in this order,
  on bare stacks. -/
  frames : transcript Addressed.frame? is (run step (create configs) is).1 =
    (transcript some (frameSteps is) (run StackWorld.step .empty (frameSteps is)).1).map
      fun e => (e.1, e.2.map .frame)
  /-- The symbol steps of a context answer as when they alone are taken on a bare registry. -/
  symbols : ∀ t, (transcript (Addressed.symbolOn? t) is (run step (create configs) is).1).map
      (fun e => (e.1, e.2.result)) =
    (transcript some (symbolSteps t is) (run Registry.symbolStep .empty (symbolSteps t is)).1).map
      fun e => (e.1, .symbol (e.1.passesOn e.2))
  /-- The constant steps of a context answer as when they alone are taken on a bare table with the
  constants of its configuration. -/
  constants : ∀ t, (transcript (Addressed.constantOn? t) is (run step (create configs) is).1).map
      (fun e => (e.1, e.2.result)) =
    (transcript some (is.filterMap (Addressed.constantOn? t))
      (run ConstantTable.step (configs.get t).constantTable
        (is.filterMap (Addressed.constantOn? t))).1).map
      fun e => (e.1, .constant e.2)
  /-- What these runs leave are the stacks and chains, the registries and the tables that the
  contexts have then. -/
  stacksAfter : (run step (create configs) is).2.bare =
    (run StackWorld.step .empty (frameSteps is)).2
  registriesAfter : ∀ t, ((run step (create configs) is).2.member t).symbols =
    (run Registry.symbolStep .empty (symbolSteps t is)).2
  tablesAfter : ∀ t, ((run step (create configs) is).2.member t).constants =
    (run ConstantTable.step (configs.get t).constantTable
      (is.filterMap (Addressed.constantOn? t))).2
  /-- Whatever saves, restores, refusals and other frame steps come next, in whichever contexts,
  all symbols and constants are still there. -/
  survive : ∀ (js : List (Addressed n (FrameStep F))) (t : Fin n),
    let w := (run step (create configs) is).2
    let later := (run step w (js.map fun b => ⟨b.target, .frame b.step⟩)).2.member t
    later.symbols = (w.member t).symbols ∧ later.constants = (w.member t).constants

/-- Every run of contexts of any configurations, whatever its steps and their order, is the
product of runs of their parts. -/
theorem product_of_parts (configs : Vector Config n)
    (is : List (Addressed n (ContextStep F φ))) : IsProduct configs is := by
  have hmember : ∀ t, (create configs : ContextWorld F φ n).member t = .create (configs.get t) := by
    intro t
    have hget : configs.get t = configs[t] := rfl
    rw [hget]
    simp [create, World.member]
  refine ⟨?_, ?_, ?_, ?_, ?_, ?_, ?_⟩
  · rw [transcript_frame, bare_create]
  · intro t
    rw [transcript_symbol, hmember]
    rfl
  · intro t
    rw [transcript_constant, hmember]
    rfl
  · rw [bare_run, bare_create]
  · intro t
    rw [symbols_run, hmember]
    rfl
  · intro t
    rw [constants_run, hmember]
    rfl
  · exact symbols_run_frameSteps _

end ContextWorld

end ExecContext
