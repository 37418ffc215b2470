import ExecContext.Frame.Step

/-!
# Worlds

A world is a number of components side by side: bare frame stacks, or contexts.
Each has a frame stack of its own, and all share one pool of saved chains, so
that a chain saved on one may be restored on another.  A step is taken on one
component and answers together with the depth of that component's stack.

Main results:

- Theorem `World.member_step_self`: a step acts on its component.
- Theorem `World.member_step_other`: a step leaves all other components alone.
- Theorems `World.toReply_step_eq` and `World.member_step_related`: a step tells worlds apart
  only as it tells the components apart on which it is taken.
-/

namespace ExecContext

/-- Components side by side, with the saved chains they share. -/
structure World (σ F : Type) (n : Nat) where
  members : Vector σ n
  saved : SavedPool F := .empty

/-- A step together with the component that takes it. -/
structure Addressed (n : Nat) (ι : Type) where
  target : Fin n
  step : ι

namespace World

variable {σ F ι α : Type} {n : Nat}

/-- The component at a place. -/
def member (w : World σ F n) (t : Fin n) : σ :=
  getElem w.members t t.isLt

/-- Worlds are the same when their components and their saved chains are. -/
theorem ext_member {v w : World σ F n} (members : ∀ t, v.member t = w.member t)
    (saved : v.saved = w.saved) : v = w := by
  obtain ⟨ms, p⟩ := v
  obtain ⟨ms', q⟩ := w
  have hmembers : ms = ms' := by
    ext k hk
    exact members ⟨k, hk⟩
  cases hmembers
  cases saved
  rfl

/-- Takes a step on one component, given how a component steps and where it keeps
its frames. -/
def step (stackOf : σ → FrameStack F)
    (act : σ → SavedPool F → ι → Outcome (σ × SavedPool F) α) (w : World σ F n)
    (a : Addressed n ι) : Outcome (World σ F n) (Observed α) :=
  let o := act (w.member a.target) w.saved a.step
  let stack := stackOf o.state.1
  { answer := { result := o.answer, size := stack.depth, isEmpty := stack.isEmpty }
    events := o.events
    state := { members := w.members.set a.target o.state.1, saved := o.state.2 } }

/-- A step acts on its component. -/
theorem member_step_self (stackOf : σ → FrameStack F)
    (act : σ → SavedPool F → ι → Outcome (σ × SavedPool F) α) (w : World σ F n)
    (a : Addressed n ι) :
    (w.step stackOf act a).state.member a.target =
      (act (w.member a.target) w.saved a.step).state.1 :=
  Vector.getElem_set_self a.target.isLt

/-- A step leaves all other components alone. -/
theorem member_step_other (stackOf : σ → FrameStack F)
    (act : σ → SavedPool F → ι → Outcome (σ × SavedPool F) α) (w : World σ F n)
    (a : Addressed n ι) {i : Fin n} (h : i ≠ a.target) :
    (w.step stackOf act a).state.member i = w.member i := by
  have hv : a.target.val ≠ i.val := fun e => h (Fin.ext e.symm)
  simp [step, member, hv]

/-! ## Steps on two worlds -/

section

variable {stackOf : σ → FrameStack F} {act : σ → SavedPool F → ι → Outcome (σ × SavedPool F) α}
  {v w : World σ F n} {a : Addressed n ι}

/-- A step that replies alike on two components, and leaves them with the same frames, replies
alike on their worlds. -/
theorem toReply_step_eq
    (hreply : (act (v.member a.target) v.saved a.step).toReply =
      (act (w.member a.target) w.saved a.step).toReply)
    (hstack : stackOf (act (v.member a.target) v.saved a.step).state.1 =
      stackOf (act (w.member a.target) w.saved a.step).state.1) :
    (v.step stackOf act a).toReply = (w.step stackOf act a).toReply := by
  have hanswer := congrArg Reply.answer hreply
  have hevents := congrArg Reply.events hreply
  simp only [step, hanswer, hevents, hstack]

/-- Components that are related one by one stay so, if the step keeps those related on which it is
taken. -/
theorem member_step_related {R : σ → σ → Prop} (hmember : ∀ u, R (v.member u) (w.member u))
    (hself : R (act (v.member a.target) v.saved a.step).state.1
      (act (w.member a.target) w.saved a.step).state.1) (u : Fin n) :
    R ((v.step stackOf act a).state.member u) ((w.step stackOf act a).state.member u) := by
  by_cases hu : u = a.target
  · rw [hu, member_step_self, member_step_self]
    exact hself
  · rw [member_step_other stackOf act v a hu, member_step_other stackOf act w a hu]
    exact hmember u

end

end World

/-- Bare frame stacks side by side. -/
abbrev StackWorld (F : Type) (n : Nat) :=
  World (FrameStack F) F n

namespace StackWorld

variable {F : Type} {n : Nat}

/-- Empty stacks, and no chain saved. -/
def empty : StackWorld F n :=
  { members := Vector.replicate n FrameStack.empty }

@[simp]
theorem member_empty (t : Fin n) : (empty : StackWorld F n).member t = .empty := by
  simp [empty, World.member]

/-- Takes one step on one of the stacks. -/
def step (w : StackWorld F n) (a : Addressed n (FrameStep F)) :
    Outcome (StackWorld F n) (Observed (FrameAnswer F)) :=
  World.step id FrameStack.step w a

theorem member_step_self (w : StackWorld F n) (t : Fin n) (i : FrameStep F) :
    (w.step ⟨t, i⟩).state.member t = ((w.member t).step w.saved i).state.1 :=
  World.member_step_self _ _ w ⟨t, i⟩

theorem member_step_other (w : StackWorld F n) (t : Fin n) (i : FrameStep F) {u : Fin n}
    (hu : u ≠ t) : (w.step ⟨t, i⟩).state.member u = w.member u :=
  World.member_step_other _ _ w ⟨t, i⟩ hu

end StackWorld

end ExecContext
