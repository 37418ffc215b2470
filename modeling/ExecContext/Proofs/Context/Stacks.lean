import ExecContext.Context.Lemmas

/-!
# The stacks of contexts

Taken apart from their symbols and constants, contexts side by side are frame
stacks side by side.  A frame step does to them what it does to the bare stacks,
every other step leaves them alone, and so a run of contexts is, as far as frames
go, the run of its frame steps.

Main results:

- Theorem `ContextWorld.bare_step`: one step, seen on the stacks.
- Theorem `ContextWorld.result_frame`: a frame step answers as on the bare stacks.
- Theorem `ContextWorld.bare_run`: a run, seen on the stacks.
-/

namespace ExecContext

variable {F φ : Type} {n : Nat}

/-! ## The frame steps of a run -/

/-- The frame step that a step is, if it is one. -/
def ContextStep.frame? : ContextStep F φ → Option (FrameStep F)
  | .frame i => some i
  | .symbol _ | .constant _ => none

/-- The frame step that a step is, addressed to the stack of the same component. -/
def Addressed.frame? (a : Addressed n (ContextStep F φ)) : Option (Addressed n (FrameStep F)) :=
  a.step.frame?.map fun i => ⟨a.target, i⟩

/-- The frame steps of a run, in order. -/
def frameSteps (is : List (Addressed n (ContextStep F φ))) : List (Addressed n (FrameStep F)) :=
  is.filterMap Addressed.frame?

theorem frameSteps_cons (a : Addressed n (ContextStep F φ))
    (is : List (Addressed n (ContextStep F φ))) :
    frameSteps (a :: is) = a.frame?.toList ++ frameSteps is := by
  cases h : a.frame? <;> simp [frameSteps, h]

/-- The frame steps of a run are those that it takes. -/
theorem mem_frameSteps {is : List (Addressed n (ContextStep F φ))}
    {b : Addressed n (FrameStep F)} :
    b ∈ frameSteps is ↔ ⟨b.target, .frame b.step⟩ ∈ is := by
  unfold frameSteps
  rw [List.mem_filterMap]
  constructor
  · rintro ⟨⟨t, s⟩, hmem, hb⟩
    cases s with
    | frame i =>
      cases hb
      exact hmem
    | symbol i | constant i => cases hb
  · intro hmem
    exact ⟨_, hmem, rfl⟩

/-! ## Contexts seen as stacks -/

namespace ContextWorld

/-- The stacks of contexts side by side, with the saved chains they share. -/
def bare (w : ContextWorld F φ n) : StackWorld F n where
  members := w.members.map Context.stack
  saved := w.saved

@[simp]
theorem saved_bare (w : ContextWorld F φ n) : w.bare.saved = w.saved :=
  rfl

@[simp]
theorem member_bare (w : ContextWorld F φ n) (t : Fin n) :
    w.bare.member t = (w.member t).stack := by
  simp [bare, World.member]

/-- Fresh contexts have empty stacks. -/
@[simp]
theorem bare_create (configs : Vector Config n) :
    (create configs : ContextWorld F φ n).bare = StackWorld.empty := by
  unfold bare create StackWorld.empty
  congr 1
  ext k hk
  simp [Context.create]

variable [FilterRule φ]

/-- A step, seen on the stacks, is a change of one stack and of the saved chains. -/
theorem bare_step_eq {w : ContextWorld F φ n} {t : Fin n} {s : ContextStep F φ}
    {v : StackWorld F n} (self : v.member t = ((w.member t).step w.saved s).state.1.stack)
    (other : ∀ u, u ≠ t → v.member u = w.bare.member u)
    (saved : v.saved = ((w.member t).step w.saved s).state.2) :
    (w.step ⟨t, s⟩).state.bare = v := by
  apply World.ext_member
  · intro u
    rw [member_bare]
    by_cases hu : u = t
    · rw [hu, member_step_self, self]
    · rw [other u hu, member_bare, member_step_other w t s hu]
  · exact saved.symm

/-- A frame step does to the stacks what it does to bare stacks. -/
theorem bare_step_frame (w : ContextWorld F φ n) (t : Fin n) (i : FrameStep F) :
    (w.step ⟨t, .frame i⟩).state.bare = (w.bare.step ⟨t, i⟩).state := by
  have hstep := Context.stack_frameStep (w.member t) w.saved i
  rw [← member_bare] at hstep
  apply bare_step_eq
  · rw [StackWorld.member_step_self]
    exact (congrArg Prod.fst hstep).symm
  · intro u hu
    exact StackWorld.member_step_other w.bare t i hu
  · exact (congrArg Prod.snd hstep).symm

/-- A step that is no frame step leaves the stacks alone. -/
theorem bare_step_other (w : ContextWorld F φ n) {a : Addressed n (ContextStep F φ)}
    (ha : a.frame? = none) : (w.step a).state.bare = w.bare := by
  rcases a with ⟨t, s⟩
  have keeps : ((w.member t).step w.saved s).state.1.stack = (w.member t).stack ∧
      ((w.member t).step w.saved s).state.2 = w.saved := by
    cases s with
    | frame i => cases ha
    | symbol i => exact ⟨Context.stack_symbolStep _ i, rfl⟩
    | constant i => exact ⟨Context.stack_constantStep _ i, rfl⟩
  apply bare_step_eq
  · rw [member_bare, keeps.1]
  · intro u _
    rfl
  · rw [keeps.2]
    rfl

/-- One step, seen on the stacks. -/
theorem bare_step (w : ContextWorld F φ n) (a : Addressed n (ContextStep F φ)) :
    (w.step a).state.bare = (run StackWorld.step w.bare a.frame?.toList).2 := by
  cases ha : a.frame? with
  | none => exact bare_step_other w ha
  | some b =>
    rcases a with ⟨t, s⟩
    cases s with
    | frame i =>
      have hb : b = ⟨t, i⟩ := (Option.some.inj ha).symm
      subst hb
      exact bare_step_frame w t i
    | symbol i | constant i => simp [Addressed.frame?, ContextStep.frame?] at ha

/-- A frame step answers as on the bare stacks. -/
theorem result_frame (w : ContextWorld F φ n) (t : Fin n) (i : FrameStep F) :
    (w.step ⟨t, .frame i⟩).answer.result = .frame (w.bare.step ⟨t, i⟩).answer.result := by
  have hanswer := Context.answer_frameStep (w.member t) w.saved i
  have hmember := member_bare w t
  simp only [step, StackWorld.step, World.step, Context.step, Outcome.answer_map, saved_bare,
    hmember, hanswer]

/-- A run, seen on the stacks, is the run of its frame steps. -/
theorem bare_run (w : ContextWorld F φ n) (is : List (Addressed n (ContextStep F φ))) :
    (run ContextWorld.step w is).2.bare =
      (run StackWorld.step w.bare (frameSteps is)).2 := by
  induction is generalizing w with
  | nil => rfl
  | cons a is ih => rw [run_cons, frameSteps_cons, run_append, ih, bare_step]

end ContextWorld

end ExecContext
