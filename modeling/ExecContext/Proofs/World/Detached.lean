import ExecContext.Class.Filter
import ExecContext.Proofs.Context.Stacks
import ExecContext.Proofs.Frame.Handle

/-!
# Detached chains come back verbatim

A save detaches the frames of one stack under a new handle.  Whatever is done to
any of the stacks and to the other handles afterwards, the handle stands for that
very chain until a step uses it up, and restoring it on any stack without frames
puts the outer frames back in their order.  A handle that was used up stays so.

Main results:

- Theorem `World.saved_chain_comes_back`: the whole life of a handle, on stacks
  side by side and on contexts side by side.
-/

namespace ExecContext

variable {σ F φ ι α : Type} {n : Nat}

/-! ## Worlds before and after a restore -/

namespace World

/-- A world after a restore of handle `h` on component `t`: `outer` is active there, all
other components and all other handles are as before. -/
structure PutsBack (stackOf : σ → FrameStack F) (before after : World σ F n) (t : Fin n)
    (h : Nat) (outer : List F) : Prop where
  frames : (stackOf (after.member t)).frames = outer
  member : ∀ u, u ≠ t → after.member u = before.member u
  saved : ∀ k, k ≠ h → after.saved.get? k = before.saved.get? k

/-- A step that keeps its component and the saved chains keeps the world. -/
theorem state_step_of_unchanged {stackOf : σ → FrameStack F}
    {act : σ → SavedPool F → ι → Outcome (σ × SavedPool F) α} {w : World σ F n}
    {a : Addressed n ι}
    (unchanged : (act (w.member a.target) w.saved a.step).state =
      (w.member a.target, w.saved)) :
    (w.step stackOf act a).state = w := by
  apply ext_member
  · intro u
    by_cases hu : u = a.target
    · subst hu
      rw [member_step_self, unchanged]
    · exact member_step_other stackOf act w a hu
  · exact congrArg Prod.snd unchanged

end World

/-! ## Stacks side by side -/

namespace StackWorld

/-- A save answers with the new handle and the chain that waits under it. -/
theorem result_save (w : StackWorld F n) (s : Fin n) (f : F) :
    (w.step ⟨s, .save f⟩).answer.result =
      .saved w.saved.nextHandle ⟨f, (w.member s).frames⟩ :=
  rfl

/-- A save leaves its stack without frames. -/
theorem frames_step_save (w : StackWorld F n) (s : Fin n) (f : F) :
    ((w.step ⟨s, .save f⟩).state.member s).frames = [] := by
  rw [member_step_self]
  rfl

/-- What a new handle finds after a save and a run. -/
theorem get?_run_save (w : StackWorld F n) (s : Fin n) (f : F)
    (later : List (Addressed n (FrameStep F))) :
    (run step (w.step ⟨s, .save f⟩).state later).2.saved.get? w.saved.nextHandle =
      if later.any (fun a => a.step.consumes w.saved.nextHandle) then none
      else some ⟨f, (w.member s).frames⟩ := by
  have hsaved : (w.step ⟨s, .save f⟩).state.saved = w.saved.issue ⟨f, (w.member s).frames⟩ := rfl
  have hissued : w.saved.nextHandle < (w.step ⟨s, .save f⟩).state.saved.nextHandle := by
    rw [hsaved, SavedPool.nextHandle_issue]
    exact Nat.lt_succ_self _
  rw [get?_run hissued, hsaved, SavedPool.get?_issue_self]

/-- An unused handle still finds its chain. -/
theorem get?_run_save_of_unused (w : StackWorld F n) (s : Fin n) (f : F)
    {later : List (Addressed n (FrameStep F))}
    (unused : ∀ a ∈ later, a.step.consumes w.saved.nextHandle = false) :
    (run step (w.step ⟨s, .save f⟩).state later).2.saved.get? w.saved.nextHandle =
      some ⟨f, (w.member s).frames⟩ := by
  have hany : later.any (fun a => a.step.consumes w.saved.nextHandle) = false := by
    simpa [List.any_eq_false] using unused
  rw [get?_run_save, hany]
  rfl

/-- A used handle finds nothing. -/
theorem get?_run_save_of_used (w : StackWorld F n) (s : Fin n) (f : F)
    {later : List (Addressed n (FrameStep F))}
    (used : ∃ a ∈ later, a.step.consumes w.saved.nextHandle = true) :
    (run step (w.step ⟨s, .save f⟩).state later).2.saved.get? w.saved.nextHandle = none := by
  rw [get?_run_save, List.any_eq_true.mpr used]
  rfl

/-- Looking at a handle shows the chain it finds. -/
theorem result_inspect {v : StackWorld F n} {h : Nat} {c : SavedChain F}
    (hc : v.saved.get? h = some c) (t : Fin n) :
    (v.step ⟨t, .inspect h⟩).answer.result = .chain c := by
  simp only [step, World.step, FrameStack.step, hc]

/-- On a stack without frames a restore hands back the current frame of the chain. -/
theorem result_restore {v : StackWorld F n} {h : Nat} {c : SavedChain F}
    (hc : v.saved.get? h = some c) {t : Fin n} (ht : (v.member t).frames = []) :
    (v.step ⟨t, .restore h⟩).answer.result = .restored c.current := by
  have hstep : FrameStack.step (v.member t) v.saved (.restore h) = _ :=
    FrameStack.step_restore_found ht hc
  simp only [step, World.step, hstep]

/-- On a stack without frames a restore puts the outer frames back. -/
theorem putsBack_restore {v : StackWorld F n} {h : Nat} {c : SavedChain F}
    (hc : v.saved.get? h = some c) {t : Fin n} (ht : (v.member t).frames = []) :
    World.PutsBack id v (v.step ⟨t, .restore h⟩).state t h c.outer := by
  refine ⟨?_, ?_, ?_⟩
  · rw [id_eq, member_step_self, FrameStack.step_restore_found ht hc]
  · intro u hu
    exact member_step_other v t _ hu
  · intro k hk
    rw [saved_step]
    change (v.saved.remove h).get? k = _
    rw [SavedPool.get?_remove, if_neg hk]

/-- Restoring or resuming through a handle that finds nothing is not possible and changes
nothing. -/
theorem step_of_noHandle {v : StackWorld F n} {h : Nat} (hn : v.saved.get? h = none)
    (t : Fin n) :
    ((v.step ⟨t, .restore h⟩).answer.result = .noHandle ∧ (v.step ⟨t, .restore h⟩).state = v) ∧
      (v.step ⟨t, .resume h⟩).answer.result = .noHandle ∧ (v.step ⟨t, .resume h⟩).state = v := by
  have hrestore := FrameStack.step_restore_noHandle (v.member t) hn
  have hresume := FrameStack.step_resume_noHandle (s := v.member t) hn
  refine ⟨⟨?_, ?_⟩, ?_, ?_⟩
  · exact congrArg (fun o => o.answer) hrestore
  · exact World.state_step_of_unchanged (congrArg (fun o => o.state) hrestore)
  · exact congrArg (fun o => o.answer) hresume
  · exact World.state_step_of_unchanged (congrArg (fun o => o.state) hresume)

end StackWorld

/-! ## Contexts side by side -/

/-- Whether a step uses a handle up; only frame steps do. -/
def ContextStep.consumes (h : Nat) : ContextStep F φ → Bool
  | .frame i => i.consumes h
  | .symbol _ | .constant _ => false

/-- The frame steps of a run use up what the run uses up. -/
theorem exists_consumes_frameSteps {h : Nat} {is : List (Addressed n (ContextStep F φ))}
    (used : ∃ a ∈ is, a.step.consumes h = true) :
    ∃ b ∈ frameSteps is, b.step.consumes h = true := by
  rcases used with ⟨⟨t, s⟩, hmem, hs⟩
  cases s with
  | frame i => exact ⟨⟨t, i⟩, mem_frameSteps.mpr hmem, hs⟩
  | symbol i | constant i => cases hs

namespace ContextWorld

variable [FilterRule φ]

theorem bare_run_save (w : ContextWorld F φ n) (s : Fin n) (f : F)
    (later : List (Addressed n (ContextStep F φ))) :
    (run ContextWorld.step (w.step ⟨s, .frame (.save f)⟩).state later).2.bare =
      (run StackWorld.step (w.bare.step ⟨s, .save f⟩).state (frameSteps later)).2 := by
  rw [bare_run, bare_step_frame]

/-- An unused handle still finds its chain. -/
theorem get?_run_save_of_unused (w : ContextWorld F φ n) (s : Fin n) (f : F)
    {later : List (Addressed n (ContextStep F φ))}
    (unused : ∀ a ∈ later, a.step.consumes w.saved.nextHandle = false) :
    (run ContextWorld.step (w.step ⟨s, .frame (.save f)⟩).state later).2.saved.get?
        w.saved.nextHandle = some ⟨f, (w.member s).frames⟩ := by
  have hframes : ∀ b ∈ frameSteps later, b.step.consumes w.saved.nextHandle = false := by
    intro b hb
    exact unused _ (mem_frameSteps.mp hb)
  have hfinds := StackWorld.get?_run_save_of_unused w.bare s f hframes
  rw [← bare_run_save, member_bare] at hfinds
  exact hfinds

/-- A used handle finds nothing. -/
theorem get?_run_save_of_used (w : ContextWorld F φ n) (s : Fin n) (f : F)
    {later : List (Addressed n (ContextStep F φ))}
    (used : ∃ a ∈ later, a.step.consumes w.saved.nextHandle = true) :
    (run ContextWorld.step (w.step ⟨s, .frame (.save f)⟩).state later).2.saved.get?
        w.saved.nextHandle = none := by
  have hfinds :=
    StackWorld.get?_run_save_of_used w.bare s f (exists_consumes_frameSteps used)
  rw [← bare_run_save] at hfinds
  exact hfinds

/-- On a context without frames a restore hands back the current frame of the chain. -/
theorem result_restore {v : ContextWorld F φ n} {h : Nat} {c : SavedChain F}
    (hc : v.saved.get? h = some c) {t : Fin n} (ht : (v.member t).stack.frames = []) :
    (v.step ⟨t, .frame (.restore h)⟩).answer.result = .frame (.restored c.current) := by
  rw [← member_bare] at ht
  rw [result_frame, StackWorld.result_restore (v := v.bare) hc ht]

/-- On a context without frames a restore puts the outer frames back. -/
theorem putsBack_restore {v : ContextWorld F φ n} {h : Nat} {c : SavedChain F}
    (hc : v.saved.get? h = some c) {t : Fin n} (ht : (v.member t).stack.frames = []) :
    World.PutsBack Context.stack v (v.step ⟨t, .frame (.restore h)⟩).state t h c.outer := by
  rw [← member_bare] at ht
  have hback := StackWorld.putsBack_restore (v := v.bare) hc ht
  rw [← bare_step_frame] at hback
  refine ⟨?_, ?_, ?_⟩
  · rw [← member_bare]
    exact hback.frames
  · intro u hu
    exact member_step_other v t _ hu
  · exact hback.saved

/-- Restoring or resuming through a handle that finds nothing is not possible and changes
nothing. -/
theorem step_of_noHandle {v : ContextWorld F φ n} {h : Nat} (hn : v.saved.get? h = none)
    (t : Fin n) :
    ((v.step ⟨t, .frame (.restore h)⟩).answer.result = .frame .noHandle ∧
        (v.step ⟨t, .frame (.restore h)⟩).state = v) ∧
      (v.step ⟨t, .frame (.resume h)⟩).answer.result = .frame .noHandle ∧
        (v.step ⟨t, .frame (.resume h)⟩).state = v := by
  have hstacks := StackWorld.step_of_noHandle (v := v.bare) hn t
  refine ⟨⟨?_, ?_⟩, ?_, ?_⟩
  · rw [result_frame, hstacks.1.1]
  · apply World.state_step_of_unchanged
    simp [Context.step, Context.frameStep, hn]
  · rw [result_frame, hstacks.2.1]
  · apply World.state_step_of_unchanged
    simp [Context.step, Context.frameStep, hn]

end ContextWorld

/-! ## The life of a handle -/

namespace World

/-- A save leaves its stack empty and issues a handle.  After any further steps on any
stacks, the handle shows the saved frame over the outer ones and can be restored on any
empty stack, which then holds exactly the outer frames while nothing else changes; unless
one of the steps used the handle up, in which case it can never be restored or resumed
again.  So it is for bare stacks, and for contexts under steps of every kind. -/
theorem saved_chain_comes_back [FilterRule φ] (f : F) :
    (∀ (w : StackWorld F n) (s : Fin n) (later : List (Addressed n (FrameStep F))),
      let h := w.saved.nextHandle
      let outer := (w.member s).frames
      let issued := w.step ⟨s, .save f⟩
      let v := (run StackWorld.step issued.state later).2
      issued.answer.result = .saved h ⟨f, outer⟩ ∧ (issued.state.member s).frames = [] ∧
        ((∀ a ∈ later, a.step.consumes h = false) →
          (∃ c, c.current = f ∧ c.depth = outer.length + 1 ∧
            ∀ t, (v.step ⟨t, .inspect h⟩).answer.result = .chain c) ∧
          ∀ t, (v.member t).frames = [] →
            (v.step ⟨t, .restore h⟩).answer.result = .restored f ∧
              PutsBack id v (v.step ⟨t, .restore h⟩).state t h outer) ∧
        ((∃ a ∈ later, a.step.consumes h = true) → ∀ t,
          ((v.step ⟨t, .restore h⟩).answer.result = .noHandle ∧
            (v.step ⟨t, .restore h⟩).state = v) ∧
          (v.step ⟨t, .resume h⟩).answer.result = .noHandle ∧
            (v.step ⟨t, .resume h⟩).state = v)) ∧
    ∀ (w : ContextWorld F φ n) (s : Fin n) (later : List (Addressed n (ContextStep F φ))),
      let h := w.saved.nextHandle
      let outer := (w.member s).frames
      let issued := w.step ⟨s, .frame (.save f)⟩
      let v := (run ContextWorld.step issued.state later).2
      issued.answer.result = .frame (.saved h ⟨f, outer⟩) ∧
        (issued.state.member s).frames = [] ∧
        ((∀ a ∈ later, a.step.consumes h = false) →
          (∃ c, c.current = f ∧ c.depth = outer.length + 1 ∧
            ∀ t, (v.step ⟨t, .frame (.inspect h)⟩).answer.result = .frame (.chain c)) ∧
          ∀ t, (v.member t).frames = [] →
            (v.step ⟨t, .frame (.restore h)⟩).answer.result = .frame (.restored f) ∧
              PutsBack Context.stack v (v.step ⟨t, .frame (.restore h)⟩).state t h outer) ∧
        ((∃ a ∈ later, a.step.consumes h = true) → ∀ t,
          ((v.step ⟨t, .frame (.restore h)⟩).answer.result = .frame .noHandle ∧
            (v.step ⟨t, .frame (.restore h)⟩).state = v) ∧
          (v.step ⟨t, .frame (.resume h)⟩).answer.result = .frame .noHandle ∧
            (v.step ⟨t, .frame (.resume h)⟩).state = v) := by
  constructor
  · intro w s later h outer issued v
    refine ⟨rfl, StackWorld.frames_step_save w s f, ?_, ?_⟩
    · intro unused
      have hc : v.saved.get? h = some ⟨f, outer⟩ :=
        StackWorld.get?_run_save_of_unused w s f unused
      refine ⟨⟨⟨f, outer⟩, rfl, rfl, StackWorld.result_inspect hc⟩, ?_⟩
      intro t ht
      exact ⟨StackWorld.result_restore hc ht, StackWorld.putsBack_restore hc ht⟩
    · intro used t
      exact StackWorld.step_of_noHandle (StackWorld.get?_run_save_of_used w s f used) t
  · intro w s later h outer issued v
    refine ⟨?_, ?_, ?_, ?_⟩
    · rw [ContextWorld.result_frame, StackWorld.result_save, ContextWorld.member_bare]
      rfl
    · have hempty := StackWorld.frames_step_save w.bare s f
      rw [← ContextWorld.bare_step_frame, ContextWorld.member_bare] at hempty
      exact hempty
    · intro unused
      have hc : v.saved.get? h = some ⟨f, outer⟩ :=
        ContextWorld.get?_run_save_of_unused w s f unused
      refine ⟨⟨⟨f, outer⟩, rfl, rfl, ?_⟩, ?_⟩
      · intro t
        rw [ContextWorld.result_frame, StackWorld.result_inspect (v := v.bare) hc]
      · intro t ht
        exact ⟨ContextWorld.result_restore hc ht, ContextWorld.putsBack_restore hc ht⟩
    · intro used t
      exact ContextWorld.step_of_noHandle (ContextWorld.get?_run_save_of_used w s f used) t

/-- A chain saved on the first of two stacks comes back on the second, although another
restore was refused in between; and it does not once it was discarded. -/
theorem saved_chain_comes_back_elsewhere :
    let w : StackWorld Nat 2 := (run StackWorld.step StackWorld.empty [⟨0, .push 5⟩]).2
    let later : List (Addressed 2 (FrameStep Nat)) :=
      [⟨0, .save 8⟩, ⟨0, .push 9⟩, ⟨0, .restore 1⟩]
    let v := (run StackWorld.step (w.step ⟨0, .save 7⟩).state later).2
    let gone := (run StackWorld.step (w.step ⟨0, .save 7⟩).state (later ++ [⟨1, .discard 0⟩])).2
    ((v.step ⟨1, .restore 0⟩).answer.result = .restored 7 ∧
        ((v.step ⟨1, .restore 0⟩).state.member 1).frames = [5] ∧
        ((v.step ⟨1, .restore 0⟩).state.member 0).frames = [9]) ∧
      (gone.step ⟨1, .restore 0⟩).answer.result = .noHandle := by
  intro w later v gone
  have life := (@saved_chain_comes_back Nat StockFilter 2 _ 7).1 w 0
  have hback := ((life later).2.2.1 (by decide)).2 1 (by decide)
  have hgone := (life (later ++ [⟨1, .discard 0⟩])).2.2.2 (by decide) 1
  have hother := congrArg FrameStack.frames (hback.2.member 0 (by decide))
  exact ⟨⟨hback.1, hback.2.frames, hother⟩, hgone.1.1⟩

end World

end ExecContext
