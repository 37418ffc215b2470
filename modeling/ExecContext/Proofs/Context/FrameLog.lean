import ExecContext.Proofs.Context.Active
import ExecContext.Proofs.Context.Symbols
import ExecContext.Proofs.Frame.Handle
import ExecContext.Proofs.Symbol.Effects

/-!
# Events of frames

The events of a context that concern its frames carry a depth: that of the stack after a push
or a pop, and that of the detached chain at a save or a restore.  A reader who knows the
conventions can keep up with the depth of the stack by the events alone.

Main results:

- Definitions `Event.depthAfter` and `Event.FitsDepth`: how a reader takes an event.
- Theorem `Context.moves_step`: what a step can emit, with the frames and the saved chains
  before and after it.
- Theorem `Moves.replays`: a reader keeps up with every step, and finds its events fitting.
-/

namespace ExecContext

variable {F φ : Type}

/-! ## Reading events -/

namespace Event

/-- Whether an event concerns frames. -/
def movesFrames : Event → Bool
  | .framePushed _ | .framePopped _ | .stackSaved _ | .stackRestored _ => true
  | _ => false

/-- The depth of the stack after an event, as a reader takes it who took it to be `k`
before.  A restore hands the current frame of the chain back. -/
def depthAfter (k : Nat) : Event → Nat
  | .framePushed d | .framePopped d => d
  | .stackSaved _ => 0
  | .stackRestored d => d - 1
  | _ => k

/-- Whether an event and the number it carries fit a stack of depth `k`. -/
def FitsDepth (k : Nat) : Event → Prop
  | .framePushed d => d = k + 1
  | .framePopped d => 0 < k ∧ d = k - 1
  | .stackSaved d => d = k + 1
  | .stackRestored d => k = 0 ∧ 1 ≤ d
  | _ => True

/-- Whether events fit one after another, each the depth that the earlier ones leave. -/
def FitDepths (k : Nat) : List Event → Prop
  | [] => True
  | e :: es => e.FitsDepth k ∧ FitDepths (depthAfter k e) es

theorem depthAfter_of_still {e : Event} (he : e.movesFrames = false) (k : Nat) :
    depthAfter k e = k := by
  cases e with
  | framePushed | framePopped | stackSaved | stackRestored => cases he
  | contextCreated | functionDeclared | functionRedeclared | classDeclared | classRedeclared
  | constantRejected => rfl

theorem fitsDepth_of_still {e : Event} (he : e.movesFrames = false) (k : Nat) :
    FitsDepth k e := by
  cases e with
  | framePushed | framePopped | stackSaved | stackRestored => cases he
  | contextCreated | functionDeclared | functionRedeclared | classDeclared | classRedeclared
  | constantRejected => trivial

/-- A reader who takes the stack to be `k` deep finds the events fitting, and takes it to be `l`
deep after them. -/
structure Replays (k : Nat) (es : List Event) (l : Nat) : Prop where
  fits : FitDepths k es
  depth : es.foldl depthAfter k = l

/-- Events are read in two parts as they are read in one. -/
theorem Replays.append {k l m : Nat} {es fs : List Event} (hes : Replays k es l)
    (hfs : Replays l fs m) : Replays k (es ++ fs) m := by
  rcases hes with ⟨hfits, rfl⟩
  rcases hfs with ⟨hlater, rfl⟩
  constructor
  · induction es generalizing k with
    | nil => exact hlater
    | cons e es ih => exact ⟨hfits.1, ih hfits.2 hlater⟩
  · exact List.foldl_append

/-- Events that do not concern frames leave the depth alone and fit any. -/
theorem Replays.of_still {es : List Event} (hes : ∀ e ∈ es, e.movesFrames = false) (k : Nat) :
    Replays k es k := by
  induction es with
  | nil => exact ⟨trivial, rfl⟩
  | cons e es ih =>
    have he := hes e List.mem_cons_self
    have hrest := ih fun e' he' => hes e' (List.mem_cons_of_mem e he')
    have hkept : depthAfter k e = k := depthAfter_of_still he k
    refine ⟨⟨fitsDepth_of_still he k, ?_⟩, ?_⟩
    · rw [hkept]
      exact hrest.fits
    · rw [List.foldl_cons, hkept]
      exact hrest.depth

end Event

/-! ## What steps emit -/

/-- What a step of a context can emit, given its frames and the saved chains, and the frames
and chains that it then leaves. -/
inductive Moves : List F → SavedPool F → List Event → List F → SavedPool F → Prop
  /-- No frame comes or goes, though the current one may be changed in its place. -/
  | still {frames left : List F} {p : SavedPool F} {es : List Event}
    (silent : ∀ e ∈ es, e.movesFrames = false) (same : left.length = frames.length) :
    Moves frames p es left p
  | push (frames : List F) (p : SavedPool F) (f : F) :
    Moves frames p [.framePushed (frames.length + 1)] (f :: frames) p
  | pop (frames : List F) (p : SavedPool F) (f : F) :
    Moves (f :: frames) p [.framePopped frames.length] frames p
  | save (frames : List F) (p : SavedPool F) (f : F) :
    Moves frames p [.stackSaved (frames.length + 1)] [] (p.issue ⟨f, frames⟩)
  /-- A chain is given up, or lost to a refusal. -/
  | release (frames : List F) (p : SavedPool F) (h : Nat) : Moves frames p [] frames (p.remove h)
  | restore {p : SavedPool F} {h : Nat} {c : SavedChain F} (found : p.get? h = some c) :
    Moves [] p [.stackRestored c.depth] c.outer (p.remove h)
  | resume {p : SavedPool F} {h : Nat} {c : SavedChain F} (found : p.get? h = some c) :
    Moves [] p [.stackRestored c.depth, .framePushed c.depth] c.frames (p.remove h)

namespace Moves

variable {frames left : List F} {p q : SavedPool F} {es : List Event}

/-- A step that asks only. -/
theorem idle (frames : List F) (p : SavedPool F) : Moves frames p [] frames p :=
  .still (fun _ he => absurd he List.not_mem_nil) rfl

/-- A reader of the events finds them fitting and keeps up with the depth. -/
theorem replays (h : Moves frames p es left q) :
    Event.Replays frames.length es left.length := by
  cases h with
  | still silent same =>
    rw [same]
    exact .of_still silent _
  | push | save => exact ⟨⟨rfl, trivial⟩, rfl⟩
  | pop => exact ⟨⟨⟨Nat.succ_pos _, rfl⟩, trivial⟩, rfl⟩
  | release => exact ⟨trivial, rfl⟩
  | restore => exact ⟨⟨⟨rfl, Nat.succ_pos _⟩, trivial⟩, rfl⟩
  | resume => exact ⟨⟨⟨rfl, Nat.succ_pos _⟩, rfl, trivial⟩, rfl⟩

end Moves

namespace Context

/-- What a frame step emits, with the frames and the saved chains before and after it. -/
theorem moves_frameStep (c : Context F φ) (p : SavedPool F) (i : FrameStep F) :
    Moves c.frames p (c.frameStep p i).events (c.frameStep p i).state.1.frames
      (c.frameStep p i).state.2 := by
  rcases c with ⟨symbols, constants, ⟨frames⟩⟩
  cases i with
  | push f => exact .push frames p f
  | pop =>
    cases frames with
    | nil => exact .idle [] p
    | cons f rest => exact .pop rest p f
  | peek | frames => exact .idle frames p
  | modifyTop change =>
    cases frames with
    | nil => exact .idle [] p
    | cons f rest => exact .still (fun _ he => absurd he List.not_mem_nil) rfl
  | duplicate =>
    cases frames with
    | nil => exact .idle [] p
    | cons f rest => exact .push (f :: rest) p f
  | save f => exact .save frames p f
  | inspect h =>
    cases hc : p.get? h with
    | none => simpa only [frameStep, hc] using .idle frames p
    | some chain => simpa only [frameStep, hc] using .idle frames p
  | discard h =>
    cases hc : p.get? h with
    | none => simpa only [frameStep, hc] using .idle frames p
    | some chain => simpa only [frameStep, hc] using .release frames p h
  | restore h =>
    cases hc : p.get? h with
    | none => simpa only [frameStep, hc] using .idle frames p
    | some chain =>
      simp only [frameStep, hc]
      cases frames with
      | nil => exact .restore hc
      | cons f rest => exact .release (f :: rest) p h
  | resume h =>
    cases hc : p.get? h with
    | none => simpa only [frameStep, hc] using .idle frames p
    | some chain =>
      simp only [frameStep, hc]
      cases frames with
      | nil => exact .resume hc
      | cons f rest => exact .release (f :: rest) p h

/-- What a symbol step emits does not concern frames. -/
theorem still_symbolStep [FilterRule φ] (c : Context F φ) (i : SymbolStep φ) :
    ∀ e ∈ (c.symbolStep i).events, e.movesFrames = false := by
  rw [events_symbolStep_eq]
  intro e he
  cases i using SymbolStep.effectCases with
  | declareFunction f =>
    obtain rfl := List.mem_singleton.mp he
    split <;> rfl
  | declareClass d =>
    obtain rfl := List.mem_singleton.mp he
    split <;> rfl
  | updateClass name s =>
    rw [Registry.events_updateClass] at he
    cases he
  | query i hi =>
    rw [Registry.events_symbolStep_of_asks _ hi] at he
    cases he

/-- Nor does what a constant step emits. -/
theorem still_constantStep (c : Context F φ) (i : ConstantStep) :
    ∀ e ∈ (c.constantStep i).events, e.movesFrames = false := by
  cases i with
  | declare name v =>
    cases h : c.constants.declare name v with
    | error err =>
      intro e he
      simp only [constantStep, declareConstant, h, Outcome.events_map, List.mem_singleton] at he
      rw [he]
      rfl
    | ok t => simp [constantStep, declareConstant, h]
  | resolve | isDefined => exact fun e he => absurd he List.not_mem_nil

/-- What a step emits, with the frames and the saved chains before and after it. -/
theorem moves_step [FilterRule φ] (c : Context F φ) (p : SavedPool F) (s : ContextStep F φ) :
    Moves c.frames p (c.step p s).events (c.step p s).state.1.frames (c.step p s).state.2 := by
  cases s with
  | frame i => exact moves_frameStep c p i
  | symbol i =>
    refine .still (still_symbolStep c i) ?_
    exact congrArg FrameStack.depth (stack_symbolStep c i)
  | constant i =>
    refine .still (still_constantStep c i) ?_
    exact congrArg FrameStack.depth (stack_constantStep c i)

end Context

end ExecContext
