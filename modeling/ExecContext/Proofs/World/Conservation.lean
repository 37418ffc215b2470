import ExecContext.Proofs.Context.Stacks
import ExecContext.Proofs.Frame.Ledger
import Mathlib.Algebra.BigOperators.Fin

/-!
# Conservation of frames

However stacks are driven, and however their chains are detached, exchanged and
given up, no frame is lost or duplicated on the way: over any run from empty
stacks, what came in is what is still on some stack or in some saved chain, or was
handed back, written over or given up with its chain.

Main results:

- Definitions `StackWorld.ledger` and `ContextWorld.ledger`: what a run moves.
- Theorem `StackWorld.balances_run`: the ledger of a run balances the frames before it
  against those after it, from any world.
- Theorem `ContextWorld.ledger_eq`: contexts move the frames that their stacks move.
- Theorem `World.frames_conserved`: the law for runs from empty stacks and from fresh
  contexts.
-/

namespace ExecContext

open Finset

variable {σ F φ : Type} {n : Nat}

/-! ## Where a frame occurs -/

namespace World

variable [BEq F]

/-- How often a frame occurs on the stacks of the components. -/
def active (stackOf : σ → FrameStack F) (w : World σ F n) (x : F) : Nat :=
  ∑ t : Fin n, (stackOf (w.member t)).frames.count x

/-- How often a frame occurs in the saved chains. -/
def waiting (w : World σ F n) (x : F) : Nat :=
  w.saved.frames.count x

end World

/-! ## Stacks side by side -/

namespace StackWorld

/-- What a run moves. -/
def ledger (w : StackWorld F n) : List (Addressed n (FrameStep F)) → Ledger F
  | [] => {}
  | a :: is =>
    a.step.movement (w.member a.target).peek w.saved.get? (w.step a).answer.result ++
      ledger (w.step a).state is

theorem ledger_cons (w : StackWorld F n) (a : Addressed n (FrameStep F))
    (is : List (Addressed n (FrameStep F))) :
    w.ledger (a :: is) =
      a.step.movement (w.member a.target).peek w.saved.get? (w.step a).answer.result ++
        (w.step a).state.ledger is :=
  rfl

/-- A measure added up over all stacks changes by as much as on the stack of the step. -/
theorem sum_members_step (g : FrameStack F → Nat) (w : StackWorld F n) (t : Fin n)
    (i : FrameStep F) :
    ∑ u : Fin n, g ((w.step ⟨t, i⟩).state.member u) + g (w.member t) =
      ∑ u : Fin n, g (w.member u) + g ((w.member t).step w.saved i).state.1 := by
  have hrest :
      ∑ u ∈ univ.erase t, g ((w.step ⟨t, i⟩).state.member u) =
        ∑ u ∈ univ.erase t, g (w.member u) := by
    apply sum_congr rfl
    intro u hu
    rw [member_step_other w t i (ne_of_mem_erase hu)]
  rw [← add_sum_erase univ (fun u : Fin n => g ((w.step ⟨t, i⟩).state.member u)) (mem_univ t),
    ← add_sum_erase univ (fun u : Fin n => g (w.member u)) (mem_univ t), hrest, member_step_self]
  omega

variable [BEq F]

/-- The ledger of a step balances the frames of the world. -/
theorem balances_step (w : StackWorld F n) (a : Addressed n (FrameStep F)) (x : F) :
    (a.step.movement (w.member a.target).peek w.saved.get? (w.step a).answer.result).Balances x
      (w.active id x + w.waiting x)
      ((w.step a).state.active id x + (w.step a).state.waiting x) := by
  rcases a with ⟨t, i⟩
  have hstep := FrameStack.balances_step (w.member t) w.saved i x
  have hsum := sum_members_step (fun s => s.frames.count x) w t i
  change (i.movement (w.member t).peek w.saved.get?
    ((w.member t).step w.saved i).answer).Balances x _ _
  unfold Ledger.Balances FrameStack.occurrences at hstep
  unfold Ledger.Balances World.active World.waiting
  simp only [id_eq]
  change _ = _ + ((w.member t).step w.saved i).state.2.frames.count x + _ + _ + _
  omega

/-- The ledger of a run balances the frames of the world. -/
theorem balances_run (w : StackWorld F n) (is : List (Addressed n (FrameStep F))) (x : F) :
    (w.ledger is).Balances x (w.active id x + w.waiting x)
      ((run step w is).2.active id x + (run step w is).2.waiting x) := by
  induction is generalizing w with
  | nil => exact Ledger.balances_empty x _
  | cons a is ih =>
    rw [ledger_cons, run_cons]
    exact (balances_step w a x).append (ih (w.step a).state)

theorem active_empty (x : F) : (empty : StackWorld F n).active id x = 0 := by
  apply sum_eq_zero
  intro t _
  rw [member_empty]
  rfl

theorem waiting_empty (x : F) : (empty : StackWorld F n).waiting x = 0 :=
  rfl

end StackWorld

/-! ## Contexts side by side -/

namespace ContextWorld

variable [FilterRule φ]

/-- What a step of a context moves; only frame steps move anything. -/
def movement (w : ContextWorld F φ n) (a : Addressed n (ContextStep F φ)) : Ledger F :=
  match a.step, (w.step a).answer.result with
  | .frame i, .frame answer => i.movement (w.member a.target).current w.saved.get? answer
  | _, _ => {}

/-- What a run moves. -/
def ledger (w : ContextWorld F φ n) : List (Addressed n (ContextStep F φ)) → Ledger F
  | [] => {}
  | a :: is => w.movement a ++ ledger (w.step a).state is

theorem ledger_cons (w : ContextWorld F φ n) (a : Addressed n (ContextStep F φ))
    (is : List (Addressed n (ContextStep F φ))) :
    w.ledger (a :: is) = w.movement a ++ (w.step a).state.ledger is :=
  rfl

theorem movement_frame (w : ContextWorld F φ n) (t : Fin n) (i : FrameStep F) :
    w.movement ⟨t, .frame i⟩ =
      i.movement (w.bare.member t).peek w.bare.saved.get?
        (w.bare.step ⟨t, i⟩).answer.result := by
  unfold movement
  rw [result_frame, member_bare]
  rfl

/-- Contexts move the frames that their stacks move. -/
theorem ledger_eq (w : ContextWorld F φ n) (is : List (Addressed n (ContextStep F φ))) :
    w.ledger is = w.bare.ledger (frameSteps is) := by
  induction is generalizing w with
  | nil => rfl
  | cons a is ih =>
    rcases a with ⟨t, s⟩
    rw [ledger_cons, ih]
    cases s with
    | frame i =>
      rw [movement_frame, bare_step_frame]
      rfl
    | symbol i | constant i =>
      rw [bare_step_other w rfl]
      rfl

omit [FilterRule φ] in
theorem active_bare [BEq F] (w : ContextWorld F φ n) (x : F) :
    w.bare.active id x = w.active Context.stack x := by
  unfold World.active
  apply sum_congr rfl
  intro t _
  rw [member_bare]
  rfl

end ContextWorld

/-! ## The law of conservation -/

namespace World

/-- Over any run from empty stacks, and over any run of steps of every kind from fresh
contexts, a frame came in as often as it now occurs on the stacks and in the saved chains,
was handed back, was written over, or was given up with its chain. -/
theorem frames_conserved [FilterRule φ] [BEq F] (x : F) :
    (∀ is : List (Addressed n (FrameStep F)),
      let w := (run StackWorld.step StackWorld.empty is).2
      let moved := StackWorld.empty.ledger is
      moved.introduced.count x =
        w.active id x + w.waiting x + moved.handedBack.count x + moved.overwritten.count x +
          moved.lost.count x) ∧
    ∀ (configs : Vector Config n) (is : List (Addressed n (ContextStep F φ))),
      let w := (run ContextWorld.step (ContextWorld.create configs) is).2
      let moved := (ContextWorld.create configs).ledger is
      moved.introduced.count x =
        w.active Context.stack x + w.waiting x + moved.handedBack.count x +
          moved.overwritten.count x + moved.lost.count x := by
  have hstacks : ∀ is : List (Addressed n (FrameStep F)),
      (StackWorld.empty.ledger is).Balances x 0
        ((run StackWorld.step StackWorld.empty is).2.active id x +
          (run StackWorld.step StackWorld.empty is).2.waiting x) := by
    intro is
    have hrun := StackWorld.balances_run StackWorld.empty is x
    rw [StackWorld.active_empty, StackWorld.waiting_empty] at hrun
    exact hrun
  constructor
  · intro is w moved
    have hrun := hstacks is
    unfold Ledger.Balances at hrun
    exact (Nat.zero_add _).symm.trans hrun
  · intro configs is w moved
    have hrun := hstacks (frameSteps is)
    rw [← ContextWorld.bare_create configs, ← ContextWorld.ledger_eq,
      ← ContextWorld.bare_run, ContextWorld.active_bare] at hrun
    unfold Ledger.Balances at hrun
    exact (Nat.zero_add _).symm.trans hrun

end World

end ExecContext
