import ExecContext.Outcome

/-!
# Branches

A component that can be copied grows into a family of branches.  Each step is
taken on one branch; a fork copies a branch, and the copy goes its own way under
the next free number.

Main results:

- Theorems `Branches.step_on` and `Branches.step_fork`: how steps on branches end.
- Theorem `Branches.getElem?_step_other`: a step on one branch leaves every other
  branch as it was.
- Theorem `Branches.states_fork`: a fork keeps all branches and adds a copy.
-/

namespace ExecContext

/-- A step on a family of branches. -/
inductive BranchStep (ι : Type) where
  /-- Take a step on the branch of this number. -/
  | on (branch : Nat) (step : ι)
  /-- Copy the branch of this number. -/
  | fork (branch : Nat)

/-- What a step on a family of branches answers. -/
inductive BranchAnswer (α : Type) where
  | answered (answer : α)
  /-- A new branch has this number. -/
  | forked (branch : Nat)
  /-- There is no branch of that number. -/
  | noBranch

/-- Branches numbered from zero in the order of their forks. -/
structure Branches (σ : Type) where
  states : List σ

namespace Branches

variable {σ ι α : Type}

/-- The family with a single branch. -/
def single (s : σ) : Branches σ :=
  ⟨[s]⟩

/-- Takes one step of a family, given how a branch takes its steps. -/
def step (act : σ → ι → Outcome σ α) (bs : Branches σ) :
    BranchStep ι → Outcome (Branches σ) (BranchAnswer α)
  | .on branch i =>
    match bs.states[branch]? with
    | none => { answer := .noBranch, state := bs }
    | some s => (act s i).map .answered fun s' => ⟨bs.states.set branch s'⟩
  | .fork branch =>
    match bs.states[branch]? with
    | none => { answer := .noBranch, state := bs }
    | some s => { answer := .forked bs.states.length, state := ⟨bs.states ++ [s]⟩ }

/-! ## How a step ends -/

section

variable {act : σ → ι → Outcome σ α} {bs : Branches σ} {branch : Nat}

theorem step_on {s : σ} (h : bs.states[branch]? = some s) (i : ι) :
    bs.step act (.on branch i) = (act s i).map .answered fun u => ⟨bs.states.set branch u⟩ := by
  simp [step, h]

theorem step_on_absent (h : bs.states[branch]? = none) (i : ι) :
    bs.step act (.on branch i) = { answer := .noBranch, state := bs } := by
  simp [step, h]

theorem step_fork {s : σ} (h : bs.states[branch]? = some s) :
    bs.step act (.fork branch) =
      { answer := .forked bs.states.length, state := ⟨bs.states ++ [s]⟩ } := by
  simp [step, h]

theorem step_fork_absent (h : bs.states[branch]? = none) :
    bs.step act (.fork branch) = { answer := .noBranch, state := bs } := by
  simp [step, h]

end

/-! ## What a step leaves -/

/-- A step on one branch leaves every other branch as it was. -/
theorem getElem?_step_other (act : σ → ι → Outcome σ α) (bs : Branches σ) {branch other : Nat}
    (i : ι) (h : other ≠ branch) :
    (bs.step act (.on branch i)).state.states[other]? = bs.states[other]? := by
  cases hb : bs.states[branch]? with
  | none => rw [step_on_absent hb]
  | some s => simp [step_on hb, List.getElem?_set_ne h.symm]

/-- A fork keeps all branches and adds a copy at the end. -/
theorem states_fork (act : σ → ι → Outcome σ α) (bs : Branches σ) {branch : Nat} {s : σ}
    (h : bs.states[branch]? = some s) :
    (bs.step act (.fork branch)).state.states = bs.states ++ [s] := by
  rw [step_fork h]

end Branches

end ExecContext
