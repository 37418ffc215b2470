import ExecContext.Proofs.Context.Active
import ExecContext.Proofs.World.Detached

/-!
# A nested run cannot observe the chain it suspended

Two worlds that differ only in the chain under one handle cannot be told apart by
steps that do not name that handle: every step answers the same, emits the same
events, and leaves two worlds that again differ only there.  A save hides the outer
frames of its context under a new handle, so whatever runs next, in any context, runs
the same over any outer frames.

Main results:

- Definition `World.AgreeExcept`: worlds that differ in one saved chain.
- Theorem `ContextWorld.step_of_agreeExcept`: one step cannot tell them apart.
- Theorem `ContextWorld.run_of_agreeExcept`: nor can a run.
- Theorem `World.suspended_chain_unobserved`: a run after a save, over any two outer
  chains.
-/

namespace ExecContext

variable {σ F φ : Type} {n : Nat}

/-- The handle that a step names; only frame steps name one. -/
def ContextStep.handle? (s : ContextStep F φ) : Option Nat :=
  s.frame?.bind FrameStep.handle?

/-- A step uses up no handle but the one it names. -/
theorem ContextStep.consumes_eq_false_of_handle?_ne {s : ContextStep F φ} {h : Nat}
    (hs : s.handle? ≠ some h) : s.consumes h = false := by
  cases s with
  | frame i => exact FrameStep.consumes_eq_false_of_handle?_ne hs
  | symbol i | constant i => rfl

/-! ## Saved chains that differ at one handle -/

namespace SavedPool

/-- The next handle is the same, and so is what every handle but `h` finds. -/
structure AgreeExcept (h : Nat) (p q : SavedPool F) : Prop where
  nextHandle : p.nextHandle = q.nextHandle
  get? : ∀ k, k ≠ h → p.get? k = q.get? k

/-- Two chains may be kept under the next handle. -/
theorem agreeExcept_issue (p : SavedPool F) (c d : SavedChain F) :
    AgreeExcept p.nextHandle (p.issue c) (p.issue d) := by
  constructor
  · rw [nextHandle_issue, nextHandle_issue]
  · intro k hk
    rw [get?_issue, get?_issue, if_neg hk, if_neg hk]

variable {h : Nat} {p q : SavedPool F}

theorem AgreeExcept.issue (hpq : AgreeExcept h p q) (c : SavedChain F) :
    AgreeExcept h (p.issue c) (q.issue c) := by
  constructor
  · rw [nextHandle_issue, nextHandle_issue, hpq.nextHandle]
  · intro k hk
    rw [get?_issue, get?_issue, hpq.nextHandle, hpq.get? k hk]

theorem AgreeExcept.remove (hpq : AgreeExcept h p q) (k : Nat) :
    AgreeExcept h (p.remove k) (q.remove k) := by
  constructor
  · rw [nextHandle_remove, nextHandle_remove, hpq.nextHandle]
  · intro j hj
    rw [get?_remove, get?_remove, hpq.get? j hj]

/-- They still differ at that handle only after the same step on the same frames. -/
theorem AgreeExcept.after (hpq : AgreeExcept h p q) (frames : List F) (i : FrameStep F) :
    AgreeExcept h (p.after frames i) (q.after frames i) := by
  cases i with
  | save f => exact hpq.issue ⟨f, frames⟩
  | discard k | restore k | resume k => exact hpq.remove k
  | _ => exact hpq

end SavedPool

/-! ## Steps of one context -/

namespace Context

variable {h : Nat} {p q : SavedPool F}

/-- A frame step cannot tell chains apart that differ at a handle it does not name. -/
theorem frameStep_eq_of_agreeExcept (c : Context F φ) (hpq : p.AgreeExcept h q)
    {i : FrameStep F} (hi : i.handle? ≠ some h) :
    (c.frameStep p i).toReply = (c.frameStep q i).toReply ∧
      (c.frameStep p i).state.1 = (c.frameStep q i).state.1 := by
  have hnamed : ∀ k, i.handle? = some k → p.get? k = q.get? k := by
    intro k hk
    apply hpq.get?
    intro heq
    exact hi (heq ▸ hk)
  cases i with
  | push | pop | peek | frames | modifyTop => exact ⟨rfl, rfl⟩
  | duplicate =>
    simp only [frameStep]
    cases c.current <;> exact ⟨rfl, rfl⟩
  | save f =>
    simp only [frameStep, hpq.nextHandle]
    exact ⟨rfl, rfl⟩
  | inspect k | discard k | restore k =>
    simp only [frameStep, hnamed k rfl]
    cases q.get? k <;> exact ⟨rfl, rfl⟩
  | resume k =>
    simp only [frameStep, hnamed k rfl]
    cases q.get? k with
    | none => exact ⟨rfl, rfl⟩
    | some chain =>
      dsimp only
      cases (c.restore chain).answer <;> exact ⟨rfl, rfl⟩

/-- The saved chains that a frame step leaves. -/
theorem saved_frameStep (c : Context F φ) (p : SavedPool F) (i : FrameStep F) :
    (c.frameStep p i).state.2 = p.after c.stack.frames i := by
  rw [state_frameStep]
  exact FrameStack.saved_step c.stack p i

/-- Nor can any step of a context, and the chains still differ at that handle only. -/
theorem step_of_agreeExcept [FilterRule φ] (c : Context F φ) (hpq : p.AgreeExcept h q)
    {s : ContextStep F φ} (hs : s.handle? ≠ some h) :
    (c.step p s).toReply = (c.step q s).toReply ∧
      (c.step p s).state.1 = (c.step q s).state.1 ∧
        (c.step p s).state.2.AgreeExcept h (c.step q s).state.2 := by
  cases s with
  | frame i =>
    rcases frameStep_eq_of_agreeExcept c hpq hs with ⟨hreply, hcontext⟩
    refine ⟨?_, hcontext, ?_⟩
    · have hanswer := congrArg Reply.answer hreply
      have hevents := congrArg Reply.events hreply
      simp only [step, Outcome.map, hanswer, hevents]
    · change (c.frameStep p i).state.2.AgreeExcept h (c.frameStep q i).state.2
      rw [saved_frameStep, saved_frameStep]
      exact hpq.after c.stack.frames i
  | symbol i | constant i => exact ⟨rfl, rfl, hpq⟩

end Context

/-! ## Worlds that differ in one saved chain -/

/-- The components are the same, and the saved chains but for what handle `h` finds. -/
structure World.AgreeExcept (h : Nat) (v w : World σ F n) : Prop where
  member : ∀ u, v.member u = w.member u
  saved : v.saved.AgreeExcept h w.saved

namespace ContextWorld

variable [FilterRule φ]

/-- Over any outer frames, a save leaves worlds that differ in the saved chain only. -/
theorem agreeExcept_save (w : ContextWorld F φ n) (t : Fin n) (f : F) (frames other : List F) :
    World.AgreeExcept w.saved.nextHandle
      ((w.withFrames t frames w.saved).step ⟨t, .frame (.save f)⟩).state
      ((w.withFrames t other w.saved).step ⟨t, .frame (.save f)⟩).state := by
  rw [state_save, state_save]
  constructor
  · intro u
    rfl
  · exact SavedPool.agreeExcept_issue w.saved ⟨f, frames⟩ ⟨f, other⟩

variable {h : Nat} {v w : ContextWorld F φ n}

/-- A step that does not name the handle cannot tell the worlds apart. -/
theorem step_of_agreeExcept (hvw : World.AgreeExcept h v w)
    {a : Addressed n (ContextStep F φ)} (ha : a.step.handle? ≠ some h) :
    (v.step a).toReply = (w.step a).toReply ∧
      World.AgreeExcept h (v.step a).state (w.step a).state := by
  rcases a with ⟨t, s⟩
  have hagree := Context.step_of_agreeExcept (v.member t) hvw.saved ha
  have hw : (v.member t).step w.saved s = (w.member t).step w.saved s := by rw [hvw.member t]
  rw [hw] at hagree
  rcases hagree with ⟨hreply, hcontext, hafter⟩
  constructor
  · exact World.toReply_step_eq hreply (congrArg Context.stack hcontext)
  · exact ⟨World.member_step_related hvw.member hcontext, hafter⟩

/-- Nor can a run. -/
theorem run_of_agreeExcept (hvw : World.AgreeExcept h v w)
    {is : List (Addressed n (ContextStep F φ))} (his : ∀ a ∈ is, a.step.handle? ≠ some h) :
    (run ContextWorld.step v is).1 = (run ContextWorld.step w is).1 ∧
      World.AgreeExcept h (run ContextWorld.step v is).2 (run ContextWorld.step w is).2 :=
  run_related (fun _ _ _ ha hagree => step_of_agreeExcept hagree ha) hvw his

end ContextWorld

/-! ## A run after a save -/

namespace World

variable [FilterRule φ]

/-- After a save, steps of any kind in any contexts that do not name the new handle give
the same replies over any two outer chains, down to sizes and events, and leave the same
contexts and the same other chains.  If they leave the context without frames, a restore
hands back the saved frame and puts back whichever outer frames there were. -/
theorem suspended_chain_unobserved (w : ContextWorld F φ n) (t : Fin n) (f : F)
    (outer other : List F) (is : List (Addressed n (ContextStep F φ)))
    (blind : ∀ a ∈ is, a.step.handle? ≠ some w.saved.nextHandle) :
    let h := w.saved.nextHandle
    let issued := fun frames => (w.withFrames t frames w.saved).step ⟨t, .frame (.save f)⟩
    let nested := fun frames => run ContextWorld.step (issued frames).state is
    (∀ frames, (issued frames).answer.result = .frame (.saved h ⟨f, frames⟩)) ∧
      (nested outer).1 = (nested other).1 ∧
      AgreeExcept h (nested outer).2 (nested other).2 ∧
      ∀ frames, ((nested frames).2.member t).frames = [] →
        ((nested frames).2.step ⟨t, .frame (.restore h)⟩).answer.result =
            .frame (.restored f) ∧
          PutsBack Context.stack (nested frames).2
            ((nested frames).2.step ⟨t, .frame (.restore h)⟩).state t h frames := by
  intro h issued nested
  have hstart := ContextWorld.agreeExcept_save w t f outer other
  rcases ContextWorld.run_of_agreeExcept hstart blind with ⟨hreplies, hlast⟩
  refine ⟨?_, hreplies, hlast, ?_⟩
  · intro frames
    exact ContextWorld.result_frame_withFrames w t frames w.saved (.save f)
  · intro frames hempty
    have hunused : ∀ a ∈ is, a.step.consumes h = false := by
      intro a ha
      exact ContextStep.consumes_eq_false_of_handle?_ne (blind a ha)
    have hc : (nested frames).2.saved.get? h = some ⟨f, frames⟩ := by
      have hfound :=
        ContextWorld.get?_run_save_of_unused (w.withFrames t frames w.saved) t f hunused
      rw [Context.frames, ContextWorld.stack_withFrames] at hfound
      exact hfound
    exact ⟨ContextWorld.result_restore hc hempty, ContextWorld.putsBack_restore hc hempty⟩

/-- A nested run that pushes, asks, saves and pops sees nothing of two outer frames, nor
of their absence, and they come back. -/
theorem suspended_chain_unobserved_over_two_frames :
    let w : ContextWorld Nat StockFilter 2 := ContextWorld.create (Vector.replicate 2 {})
    let is : List (Addressed 2 (ContextStep Nat StockFilter)) :=
      [⟨0, .frame (.push 4)⟩, ⟨0, .frame .frames⟩, ⟨1, .frame (.save 5)⟩,
        ⟨0, .symbol .counts⟩, ⟨1, .frame (.restore 1)⟩, ⟨0, .frame .pop⟩]
    let nested := fun frames =>
      run ContextWorld.step ((w.withFrames 0 frames w.saved).step ⟨0, .frame (.save 3)⟩).state is
    (nested [2, 1]).1 = (nested []).1 ∧
      ((nested [2, 1]).2.step ⟨0, .frame (.restore 0)⟩).answer.result = .frame (.restored 3) ∧
      (((nested [2, 1]).2.step ⟨0, .frame (.restore 0)⟩).state.member 0).frames = [2, 1] := by
  intro w is nested
  have hblind : ∀ a ∈ is, a.step.handle? ≠ some w.saved.nextHandle := by decide
  rcases suspended_chain_unobserved w 0 3 [2, 1] [] is hblind with ⟨-, hreplies, -, hback⟩
  have hempty : ((nested [2, 1]).2.member 0).frames = [] := by decide +kernel
  rcases hback [2, 1] hempty with ⟨hresult, hputs⟩
  exact ⟨hreplies, hresult, hputs.frames⟩

end World

end ExecContext
