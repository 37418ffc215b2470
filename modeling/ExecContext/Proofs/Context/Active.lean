import ExecContext.Context.Lemmas

/-!
# Worlds up to the frames of one context

The steps that one context takes on its frames change its active frames and the
saved chains, and nothing else in the world.  A world is therefore described by
any world of the same symbols, constants and other contexts, together with the
active frames and the saved chains.

Main results:

- Theorem `ContextWorld.state_frame`: a frame step as a change of frames and chains.
- Theorem `ContextWorld.result_frame_withFrames`: its answer depends on these only.
-/

namespace ExecContext

variable {F φ : Type} {n : Nat}

/-- A frame step changes the stack and the saved chains as it does the bare stack. -/
theorem Context.state_frameStep (c : Context F φ) (p : SavedPool F) (i : FrameStep F) :
    (c.frameStep p i).state =
      ({ c with stack := (c.stack.step p i).state.1 }, (c.stack.step p i).state.2) := by
  have hstack := Context.stack_frameStep c p i
  have hsymbols := Context.symbols_frameStep c p i
  have hconstants := Context.constants_frameStep c p i
  rw [← hstack]
  generalize (c.frameStep p i).state = o at hsymbols hconstants ⊢
  rcases o with ⟨⟨symbols, constants, stack⟩, q⟩
  cases hsymbols
  cases hconstants
  rfl

namespace ContextWorld

/-- The world in which context `t` has the given frames and the saved chains are `p`, all
else being as it is. -/
def withFrames (w : ContextWorld F φ n) (t : Fin n) (frames : List F) (p : SavedPool F) :
    ContextWorld F φ n where
  members := w.members.set t.val { w.member t with stack := ⟨frames⟩ } t.isLt
  saved := p

@[simp]
theorem saved_withFrames (w : ContextWorld F φ n) (t : Fin n) (frames : List F)
    (p : SavedPool F) : (w.withFrames t frames p).saved = p :=
  rfl

theorem member_withFrames (w : ContextWorld F φ n) (t : Fin n) (frames : List F)
    (p : SavedPool F) :
    (w.withFrames t frames p).member t = { w.member t with stack := ⟨frames⟩ } :=
  Vector.getElem_set_self t.isLt

theorem member_withFrames_other (w : ContextWorld F φ n) (t : Fin n) (frames : List F)
    (p : SavedPool F) {u : Fin n} (hu : u ≠ t) :
    (w.withFrames t frames p).member u = w.member u := by
  have hv : t.val ≠ u.val := by
    intro heq
    exact hu (Fin.ext heq.symm)
  exact Vector.getElem_set_ne t.isLt u.isLt hv

@[simp]
theorem stack_withFrames (w : ContextWorld F φ n) (t : Fin n) (frames : List F)
    (p : SavedPool F) : ((w.withFrames t frames p).member t).stack = ⟨frames⟩ := by
  rw [member_withFrames]

/-- A context does not change when it is given the frames that it has. -/
theorem member_withFrames_self (w : ContextWorld F φ n) (t : Fin n) (p : SavedPool F)
    (u : Fin n) : (w.withFrames t (w.member t).stack.frames p).member u = w.member u := by
  by_cases hu : u = t
  · rw [hu, member_withFrames]
  · exact member_withFrames_other w t _ p hu

/-- A world has the frames and the chains that it has. -/
theorem withFrames_self (w : ContextWorld F φ n) (t : Fin n) :
    w.withFrames t (w.member t).stack.frames w.saved = w := by
  apply World.ext_member
  · exact member_withFrames_self w t w.saved
  · rfl

/-- What the frames and the chains were before does not matter. -/
@[simp]
theorem withFrames_withFrames (w : ContextWorld F φ n) (t : Fin n) (frames other : List F)
    (p q : SavedPool F) :
    (w.withFrames t frames p).withFrames t other q = w.withFrames t other q := by
  apply World.ext_member
  · intro u
    by_cases hu : u = t
    · rw [hu, member_withFrames, member_withFrames, member_withFrames]
    · rw [member_withFrames_other _ t other q hu, member_withFrames_other w t frames p hu,
        member_withFrames_other w t other q hu]
  · rfl

variable [FilterRule φ]

/-- A frame step changes the frames of its context and the saved chains, as it does on the
bare stack. -/
theorem state_frame (w : ContextWorld F φ n) (t : Fin n) (i : FrameStep F) :
    (w.step ⟨t, .frame i⟩).state =
      w.withFrames t ((w.member t).stack.step w.saved i).state.1.frames
        ((w.member t).stack.step w.saved i).state.2 := by
  simp only [step, World.step, Context.step, Outcome.state_map, id_eq, Context.state_frameStep]
  rfl

/-- The same for a world described by its frames and chains. -/
theorem state_frame_withFrames (w : ContextWorld F φ n) (t : Fin n) (frames : List F)
    (p : SavedPool F) (i : FrameStep F) :
    ((w.withFrames t frames p).step ⟨t, .frame i⟩).state =
      w.withFrames t ((⟨frames⟩ : FrameStack F).step p i).state.1.frames
        ((⟨frames⟩ : FrameStack F).step p i).state.2 := by
  rw [state_frame, stack_withFrames, saved_withFrames, withFrames_withFrames]

/-- A frame step answers as on the bare stack with those frames and chains. -/
theorem result_frame_withFrames (w : ContextWorld F φ n) (t : Fin n) (frames : List F)
    (p : SavedPool F) (i : FrameStep F) :
    ((w.withFrames t frames p).step ⟨t, .frame i⟩).answer.result =
      .frame ((⟨frames⟩ : FrameStack F).step p i).answer := by
  have hanswer := Context.answer_frameStep ((w.withFrames t frames p).member t) p i
  rw [stack_withFrames] at hanswer
  exact congrArg ContextAnswer.frame hanswer

/-- A save leaves no active frames, and one saved chain more. -/
theorem state_save (w : ContextWorld F φ n) (t : Fin n) (frames : List F) (p : SavedPool F)
    (f : F) :
    ((w.withFrames t frames p).step ⟨t, .frame (.save f)⟩).state =
      w.withFrames t [] (p.issue ⟨f, frames⟩) :=
  state_frame_withFrames w t frames p (.save f)

end ContextWorld

end ExecContext
