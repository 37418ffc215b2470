import ExecContext.Class.Filter
import ExecContext.Proofs.Context.Source
import ExecContext.Proofs.Run.Transcript
import ExecContext.Proofs.World.Failure

/-!
# The log replays the depth

Whoever reads what a context reports, and knows that pushes and pops tell the depth of the
stack and saves and restores that of the detached chain, knows how deep its stack is after every
step, whatever other contexts do in between.  Each event fits the depth at which it is read, and
every restored event stems from a saved event of its own.

Main results:

- Theorem `ContextWorld.replays_run`: a reader of the log of a context keeps up with its depth.
- Theorem `ContextWorld.traced_run`: the log of all contexts tells where restored chains come
  from.
- Theorem `ContextWorld.frame_events_replay_depth`: the same from the creation of the contexts
  on, and which steps report nothing of frames.
-/

namespace ExecContext

variable {F φ : Type} {n : Nat}

namespace Context

/-- Without frames a pop reports nothing. -/
theorem events_pop_of_empty {c : Context F φ} (hc : c.frames = []) (p : SavedPool F) :
    (c.frameStep p .pop).events = [] := by
  rcases c with ⟨symbols, constants, ⟨frames⟩⟩
  cases hc
  rfl

/-- A refused restore or resume reports nothing. -/
theorem events_of_refused {c : Context F φ} {p : SavedPool F} {i : FrameStep F}
    {e : RestoreError} (refused : (c.frameStep p i).answer = .refused e) :
    (c.frameStep p i).events = [] := by
  rw [answer_frameStep] at refused
  rcases c with ⟨symbols, constants, ⟨frames⟩⟩
  rcases FrameStack.closes_of_refused refused with ⟨h, rfl⟩ | ⟨h, rfl⟩
  · rcases (FrameStack.refused_iff _ p (Or.inl rfl) e).mp refused with ⟨hwaits, hactive, -⟩
    rcases Option.isSome_iff_exists.mp hwaits with ⟨chain, hc⟩
    simp [frameStep, hc, restore, FrameStack.restore_of_active hactive]
  · rcases (FrameStack.refused_iff _ p (Or.inr rfl) e).mp refused with ⟨hwaits, hactive, -⟩
    rcases Option.isSome_iff_exists.mp hwaits with ⟨chain, hc⟩
    simp [frameStep, hc, restore, FrameStack.restore_of_active hactive]

end Context

namespace ContextWorld

variable [FilterRule φ]

/-! ## Steps -/

/-- What a step reports, with the frames of its context and the saved chains before and after
it. -/
theorem moves_step (w : ContextWorld F φ n) (a : Addressed n (ContextStep F φ)) :
    Moves (w.member a.target).frames w.saved (w.step a).events
      ((w.step a).state.member a.target).frames (w.step a).state.saved := by
  rcases a with ⟨t, s⟩
  rw [member_step_self]
  exact Context.moves_step (w.member t) w.saved s

/-- What the events of its steps tell of a context, what it reports of any step tells of it. -/
theorem told_step {Tells : Context F φ → List Event → Context F φ → Prop}
    (silence : ∀ c, Tells c [] c)
    (told : ∀ c p s, Tells c (c.step p s).events (c.step p s).state.1) (w : ContextWorld F φ n)
    (a : Addressed n (ContextStep F φ)) (t : Fin n) :
    Tells (w.member t) (if a.target == t then (w.step a).events else [])
      ((w.step a).state.member t) := by
  rcases a with ⟨u, s⟩
  by_cases hu : t = u
  · subst hu
    rw [beq_self_eq_true, if_pos rfl, member_step_self]
    exact told (w.member t) w.saved s
  · have hskip : (u == t) = false := beq_false_of_ne (Ne.symm hu)
    rw [hskip, member_step_other w u s hu]
    exact silence (w.member t)

/-- A reader of the events of the steps of a context keeps up with its depth. -/
theorem replays_step (w : ContextWorld F φ n) (a : Addressed n (ContextStep F φ)) (t : Fin n) :
    Event.Replays (w.member t).depth (if a.target == t then (w.step a).events else [])
      ((w.step a).state.member t).depth := by
  let Tells : Context F φ → List Event → Context F φ → Prop :=
    fun c es d => Event.Replays c.depth es d.depth
  have silence : ∀ c, Tells c [] c := by
    intro c
    exact ⟨trivial, rfl⟩
  have told : ∀ c p s, Tells c (c.step p s).events (c.step p s).state.1 := by
    intro c p s
    exact (Context.moves_step c p s).replays
  exact told_step silence told w a t

/-- A step that reports nothing of frames keeps the depth of every stack. -/
theorem depth_step_of_still {w : ContextWorld F φ n} {a : Addressed n (ContextStep F φ)}
    (still : ∀ e ∈ (w.step a).events, e.movesFrames = false) (t : Fin n) :
    ((w.step a).state.member t).depth = (w.member t).depth := by
  have hread := (replays_step w a t).depth
  rw [← hread]
  split
  · exact (Event.Replays.of_still still _).depth
  · rfl

/-! ## Runs -/

/-- A reader of the log of a context keeps up with its depth. -/
theorem replays_run (w : ContextWorld F φ n) (is : List (Addressed n (ContextStep F φ)))
    (t : Fin n) :
    Event.Replays (w.member t).depth (logOf (fun a => a.target == t) is (run step w is).1)
      ((run step w is).2.member t).depth := by
  apply told_run_logOf fun v : ContextWorld F φ n => (v.member t).depth
  · intro k
    exact ⟨trivial, rfl⟩
  · intro k l m es fs hes hfs
    exact hes.append hfs
  · intro v a
    exact replays_step v a t

/-- After a run the log of all contexts can still be traced. -/
theorem traced_run {w : ContextWorld F φ n} {log : List Event} (h : Traced log w.saved)
    (is : List (Addressed n (ContextStep F φ))) :
    Traced (log ++ (run step w is).1.flatMap Reply.events) (run step w is).2.saved := by
  induction is generalizing w log with
  | nil => simpa only [run_nil, List.flatMap_nil, List.append_nil] using h
  | cons a is ih =>
    have hstep := ih ((moves_step w a).traced h)
    rw [List.append_assoc] at hstep
    exact hstep

/-! ## From the creation on -/

/-- What a context reports in a run, from its creation on. -/
def logOn (configs : Vector Config n) (is : List (Addressed n (ContextStep F φ))) (t : Fin n) :
    List Event :=
  Context.creationEvents (configs.get t) ++
    logOf (fun a => a.target == t) is (run step (create configs) is).1

/-- After any run of fresh contexts, whoever read the log of one of them from depth zero knows
its depth and found every event fitting; restored events, all contexts taken together, can be
matched to saved events.  A step that reports nothing of frames, then, changes no depth; a pop
without frames and a refused restore or resume report nothing at all. -/
theorem frame_events_replay_depth (configs : Vector Config n)
    (is : List (Addressed n (ContextStep F φ))) :
    let w := (run step (create configs) is).2
    (∀ t, (logOn configs is t).foldl Event.depthAfter 0 = (w.member t).depth ∧
      Event.FitDepths 0 (logOn configs is t)) ∧
    RestoresMatched ((run step (create configs) is).1.flatMap Reply.events) ∧
    (∀ a, (∀ e ∈ (w.step a).events, e.movesFrames = false) →
      ∀ t, ((w.step a).state.member t).depth = (w.member t).depth) ∧
    (∀ t, (w.member t).frames = [] → (w.step ⟨t, .frame .pop⟩).events = []) ∧
    ∀ t i e, (w.step ⟨t, .frame i⟩).answer.result = .frame (.refused e) →
      (w.step ⟨t, .frame i⟩).events = [] := by
  intro w
  refine ⟨?_, ?_, ?_, ?_, ?_⟩
  · intro t
    have hfresh : ((create configs : ContextWorld F φ n).member t).depth = 0 := by
      simp [create, World.member, Context.create, Context.depth, FrameStack.depth,
        FrameStack.empty]
    have hlog := replays_run (create configs) is t
    rw [hfresh] at hlog
    -- The event of the creation does not concern frames.
    exact ⟨hlog.depth, trivial, hlog.fits⟩
  · have htraced : Traced _ w.saved :=
      traced_run (w := (create configs : ContextWorld F φ n)) Traced.start is
    rw [List.nil_append] at htraced
    exact htraced.restoresMatched
  · intro a still
    exact depth_step_of_still still
  · intro t ht
    exact Context.events_pop_of_empty ht w.saved
  · intro t i e refused
    have hrefused : ((w.member t).frameStep w.saved i).answer = .refused e := by
      injection refused
    exact Context.events_of_refused hrefused

/-- A chain of the first of two contexts is put back in the second, which is then one frame deep
by its log; the next chain is refused there without an event, and so is a pop on the first. -/
theorem frame_events_replay_depth_across_contexts :
    let configs : Vector Config 2 := Vector.replicate 2 {}
    let is : List (Addressed 2 (ContextStep Nat StockFilter)) :=
      [⟨0, .frame (.push 5)⟩, ⟨0, .frame (.save 6)⟩, ⟨0, .frame (.save 7)⟩,
        ⟨1, .frame (.restore 0)⟩]
    let w := (run ContextWorld.step (create configs) is).2
    (logOn configs is 1).foldl Event.depthAfter 0 = 1 ∧
      (w.step ⟨0, .frame .pop⟩).events = [] ∧
      (w.step ⟨1, .frame (.restore 1)⟩).events = [] ∧
      ((w.step ⟨1, .frame (.restore 1)⟩).state.member 1).depth = (w.member 1).depth := by
  intro configs is w
  rcases frame_events_replay_depth configs is with ⟨hlog, -, hstill, hpop, hrefused⟩
  have hdepth : (w.member 1).depth = 1 := by decide +kernel
  have hquiet : (w.step ⟨1, .frame (.restore 1)⟩).events = [] := by
    apply hrefused 1 (.restore 1) ⟨1⟩
    apply (refused_iff w 1 (Or.inl rfl) ⟨1⟩).mpr
    decide +kernel
  have hempty : (w.step ⟨0, .frame .pop⟩).events = [] := by
    apply hpop 0
    decide +kernel
  refine ⟨(hlog 1).1.trans hdepth, hempty, hquiet, hstill ⟨1, .frame (.restore 1)⟩ ?_ 1⟩
  intro e he
  have hnone : e ∈ (w.step ⟨1, .frame (.restore 1)⟩).events := he
  rw [hquiet] at hnone
  cases hnone

end ContextWorld

end ExecContext
