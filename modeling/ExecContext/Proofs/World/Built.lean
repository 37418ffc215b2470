import ExecContext.Class.Filter
import ExecContext.Proofs.Context.Active
import ExecContext.Proofs.Context.Builder
import ExecContext.Proofs.Context.Symbols

/-!
# Contexts built by calls

Contexts are alike if they have the same symbols and frames and if their constants are alike.
No step tells such contexts apart, and so no run tells apart contexts that were built by calls of
the same effect, however these were ordered and repeated.

Main results:

- Theorem `Context.Alike.step`: no step of a context tells contexts apart that are alike.
- Theorem `ContextWorld.Alike.run`: nor does a run over contexts side by side.
- Theorem `ContextWorld.order_of_calls_unobserved`: which calls build the same contexts.
-/

namespace ExecContext

variable {F φ : Type} {n : Nat}

namespace Context

/-- The symbols and the frames are the same, and the constants are alike. -/
structure Alike (c d : Context F φ) : Prop where
  symbols : c.symbols = d.symbols
  stack : c.stack = d.stack
  constants : c.constants.Alike d.constants

/-! ## What the steps of a context report -/

/-- A frame step shows nothing but the frames and the saved chains. -/
theorem toReply_frameStep_of_stack_eq {c d : Context F φ} (h : c.stack = d.stack)
    (p : SavedPool F) (i : FrameStep F) : (c.frameStep p i).toReply = (d.frameStep p i).toReply := by
  rcases c with ⟨symbols, constants, stack⟩
  rcases d with ⟨symbols', constants', stack'⟩
  cases h
  cases i with
  | push | pop | peek | frames | modifyTop | save => rfl
  | duplicate =>
    cases hc : stack.peek with
    | none => simp only [frameStep, current, hc]
    | some f =>
      simp only [frameStep, current, hc]
      rfl
  | inspect k | discard k => cases hc : p.get? k <;> simp only [frameStep, hc]
  | restore k =>
    cases hc : p.get? k with
    | none => simp only [frameStep, hc]
    | some chain =>
      simp only [frameStep, hc]
      apply Outcome.toReply_map_eq
      cases hr : stack.restore chain <;> simp only [restore, hr]
  | resume k =>
    cases hc : p.get? k with
    | none => simp only [frameStep, hc]
    | some chain => cases hr : stack.restore chain <;> simp only [frameStep, restore, push, hc, hr]

/-- A constant step reports the rejection that it answers, and nothing else. -/
theorem events_constantStep (c : Context F φ) (i : ConstantStep) :
    (c.constantStep i).events =
      match (c.constants.step i).answer with
      | .rejected e => [.constantRejected e]
      | _ => [] := by
  cases i with
  | resolve | isDefined => rfl
  | declare name v =>
    cases h : c.constants.declare name v <;>
      simp [constantStep, declareConstant, ConstantTable.step, h]

namespace Alike

variable {c d : Context F φ}

/-- A constant step is answered and reported alike, and leaves contexts alike. -/
theorem constantStep (h : c.Alike d) (i : ConstantStep) :
    (c.constantStep i).toReply = (d.constantStep i).toReply ∧
      (c.constantStep i).state.Alike (d.constantStep i).state := by
  have hanswer := h.constants.answer_step i
  constructor
  · have hanswers : (c.constantStep i).answer = (d.constantStep i).answer := by
      rw [answer_constantStep, answer_constantStep, hanswer]
    have hevents : (c.constantStep i).events = (d.constantStep i).events := by
      rw [events_constantStep, events_constantStep, hanswer]
    exact Outcome.toReply_eq hanswers hevents
  · rw [state_constantStep, state_constantStep]
    exact ⟨h.symbols, h.stack, h.constants.step i⟩

variable [FilterRule φ]

/-- So does a symbol step. -/
theorem symbolStep (h : c.Alike d) (i : SymbolStep φ) :
    (c.symbolStep i).toReply = (d.symbolStep i).toReply ∧
      (c.symbolStep i).state.Alike (d.symbolStep i).state := by
  constructor
  · have hanswers : (c.symbolStep i).answer = (d.symbolStep i).answer := by
      rw [answer_symbolStep_eq, answer_symbolStep_eq, h.symbols]
    have hevents : (c.symbolStep i).events = (d.symbolStep i).events := by
      rw [events_symbolStep_eq, events_symbolStep_eq, h.symbols]
    exact Outcome.toReply_eq hanswers hevents
  · rw [state_symbolStep, state_symbolStep, h.symbols]
    exact ⟨rfl, h.stack, h.constants⟩

/-- No step tells contexts apart that are alike. -/
theorem step (h : c.Alike d) (p : SavedPool F) (s : ContextStep F φ) :
    (c.step p s).toReply = (d.step p s).toReply ∧
      (c.step p s).state.1.Alike (d.step p s).state.1 ∧
        (c.step p s).state.2 = (d.step p s).state.2 := by
  cases s with
  | frame i =>
    have hreply := toReply_frameStep_of_stack_eq h.stack p i
    refine ⟨Outcome.toReply_map_eq hreply _ _ _, ?_, ?_⟩
    · change (c.frameStep p i).state.1.Alike (d.frameStep p i).state.1
      rw [state_frameStep, state_frameStep, h.stack]
      exact ⟨h.symbols, rfl, h.constants⟩
    · change (c.frameStep p i).state.2 = (d.frameStep p i).state.2
      rw [state_frameStep, state_frameStep, h.stack]
  | symbol i =>
    rcases h.symbolStep i with ⟨hreply, hstate⟩
    exact ⟨Outcome.toReply_map_eq hreply _ _ _, hstate, rfl⟩
  | constant i =>
    rcases h.constantStep i with ⟨hreply, hstate⟩
    exact ⟨Outcome.toReply_map_eq hreply _ _ _, hstate, rfl⟩

end Alike

end Context

/-! ## Contexts side by side -/

namespace ContextWorld

/-- The contexts are alike in their places, and the saved chains are the same. -/
structure Alike (v w : ContextWorld F φ n) : Prop where
  member : ∀ u, (v.member u).Alike (w.member u)
  saved : v.saved = w.saved

variable [FilterRule φ]

/-- No step tells worlds apart that are alike. -/
theorem Alike.step {v w : ContextWorld F φ n} (h : v.Alike w)
    (a : Addressed n (ContextStep F φ)) :
    (v.step a).toReply = (w.step a).toReply ∧ (v.step a).state.Alike (w.step a).state := by
  have hstep := (h.member a.target).step v.saved a.step
  have hw : (w.member a.target).step v.saved a.step = (w.member a.target).step w.saved a.step := by
    rw [h.saved]
  rw [hw] at hstep
  rcases hstep with ⟨hreply, hmember, hsaved⟩
  constructor
  · exact World.toReply_step_eq hreply hmember.stack
  · exact ⟨World.member_step_related h.member hmember, hsaved⟩

/-- Nor does a run. -/
theorem Alike.run {v w : ContextWorld F φ n} (h : v.Alike w)
    (is : List (Addressed n (ContextStep F φ))) :
    (run ContextWorld.step v is).1 = (run ContextWorld.step w is).1 ∧
      (run ContextWorld.step v is).2.Alike (run ContextWorld.step w is).2 :=
  run_related (P := fun _ => True) (fun _ _ a _ hvw => hvw.step a) h fun _ _ => trivial

omit [FilterRule φ] in
/-- New contexts are alike if their configurations store the same. -/
theorem alike_create {configs others : Vector Config n}
    (h : ∀ t : Fin n, (configs.get t).constantTable.Alike (others.get t).constantTable) :
    (create configs : ContextWorld F φ n).Alike (create others) where
  member t := by
    rw [member_create, member_create]
    exact ⟨rfl, rfl, h t⟩
  saved := rfl

/-! ## Contexts built by calls -/

/-- Contexts of these configurations cannot be told from contexts of those: their creation
reports the same, and every run replies the same, with the same events. -/
structure Indistinguishable (F φ : Type) [FilterRule φ] (configs others : Vector Config n) :
    Prop where
  created : ∀ t : Fin n, Context.creationEvents (configs.get t) =
    Context.creationEvents (others.get t)
  replies : ∀ is : List (Addressed n (ContextStep F φ)),
    (run step (create configs) is).1 = (run step (create others) is).1

/-- The order in which contexts are built up shows only within the constants of one name.  The
contexts that lists of calls build cannot be told from those of the configurations that are read
off the lists; nor can those of lists of the same effect from each other.  And the last constant
of a core constant's name means after any run what it was defined as, though the core constants
were asked for later. -/
theorem order_of_calls_unobserved :
    (∀ calls : Vector (List BuilderCall) n,
      Indistinguishable F φ (calls.map Config.ofCalls) (calls.map Config.readOff)) ∧
    (∀ calls others : Vector (List BuilderCall) n,
      (∀ t : Fin n, BuilderCall.SameEffect (calls.get t) (others.get t)) →
        Indistinguishable F φ (calls.map Config.ofCalls) (others.map Config.ofCalls)) ∧
    ∀ (calls : Vector (List BuilderCall) n) (t : Fin n) (before between after : List BuilderCall)
      (name : ByteString) (v : Value),
      calls.get t = before ++ .constant name v :: (between ++ .coreConstants :: after) →
      name ∈ ConstantTable.core.map Prod.fst → (∀ w, .constant name w ∉ between ++ after) →
      ∀ is : List (Addressed n (ContextStep F φ)),
        ((run step (create (calls.map Config.ofCalls)) is).2.member t).fetchConstant name =
          some v := by
  have hget : ∀ (cs : Vector (List BuilderCall) n) (t : Fin n),
      (cs.map Config.ofCalls).get t = Config.ofCalls (cs.get t) :=
    fun _ t => Vector.getElem_map Config.ofCalls t.isLt
  refine ⟨?_, ?_, ?_⟩
  · intro calls
    have hsame : Config.ofCalls = Config.readOff := funext Config.ofCalls_eq_readOff
    rw [hsame]
    exact ⟨fun _ => rfl, fun _ => rfl⟩
  · intro calls others heffect
    constructor
    · intro t
      rw [hget, hget]
      exact (heffect t).creationEvents
    · intro is
      have hconstants : ∀ t : Fin n, ((calls.map Config.ofCalls).get t).constantTable.Alike
          ((others.map Config.ofCalls).get t).constantTable := by
        intro t
        rw [hget, hget]
        exact (heffect t).alike_constantTable
      exact ((alike_create hconstants).run is).1
  · intro calls t before between after name v hcalls hcore hlast is
    have hlater : ∀ w, .constant name w ∉ between ++ .coreConstants :: after := by
      intro w hw
      have hmem : .constant name w ∈ between ++ after := by simpa using hw
      exact hlast w hmem
    have hstart : ((create (calls.map Config.ofCalls) : ContextWorld F φ n).member t).constants =
        (Config.ofCalls (calls.get t)).constantTable := by
      rw [member_create, hget]
      rfl
    have hbegan := Config.resolve_ofCalls_of_last before v
      (ConstantTable.parse_of_mem_core hcore) hlater
    change (((run step _ is).2.member t).constants).resolve name = some v
    rw [constants_run, ConstantTable.resolve_run, hstart, hcalls, hbegan, Option.some_or]

/-- A constant of the host's stands over the core constant of its name though the core constants
are asked for after it, and calls for constants of different names may change places. -/
theorem order_of_calls_unobserved_around_core :
    let level := ByteString.ofString "E_ALL"
    let mode := ByteString.ofString "MODE"
    let calls : Vector (List BuilderCall) 1 :=
      #v[[.stackCapacity 8, .constant level (.int 1), .constant mode .null, .coreConstants,
        .stackCapacity 2]]
    let others : Vector (List BuilderCall) 1 :=
      #v[[.coreConstants, .constant mode .null, .coreConstants, .stackCapacity 2,
        .constant level (.int 1)]]
    let is : List (Addressed 1 (ContextStep Nat StockFilter)) :=
      [⟨0, .constant (.declare level (.int 3))⟩, ⟨0, .frame (.save 5)⟩]
    Indistinguishable Nat StockFilter (calls.map Config.ofCalls) (others.map Config.ofCalls) ∧
      ((run step (create (calls.map Config.ofCalls)) is).2.member 0).fetchConstant level =
        some (.int 1) := by
  intro level mode calls others is
  rcases @order_of_calls_unobserved Nat StockFilter 1 _ with ⟨-, hsame, hover⟩
  have hne : level ≠ mode := by decide +kernel
  constructor
  · apply hsame
    intro t
    obtain rfl : t = 0 := Subsingleton.elim t 0
    refine ⟨by decide, by decide, ?_⟩
    intro name
    change [(level, Value.int 1), (mode, .null)].filter (fun e => e.1 = name) =
      [(mode, Value.null), (level, .int 1)].filter fun e => e.1 = name
    by_cases hlevel : level = name
    · have hmode : mode ≠ name := hlevel ▸ hne.symm
      simp [hlevel, hmode]
    · simp [List.filter_cons, hlevel]
  · have hcore : level ∈ ConstantTable.core.map Prod.fst := by decide +kernel
    have hlast : ∀ w, BuilderCall.constant level w ∉
        [BuilderCall.constant mode .null] ++ [.stackCapacity 2] := by
      intro w
      simp [hne]
    exact hover calls 0 [.stackCapacity 8] [.constant mode .null] [.stackCapacity 2] level (.int 1)
      rfl hcore hlast is

end ContextWorld

end ExecContext
