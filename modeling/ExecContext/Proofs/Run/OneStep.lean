import ExecContext.Outcome

/-!
# Runs with one step changed

A step shows itself to the rest of a run only through the state that it leaves.  So
two runs that differ in one step give the same replies to all other steps as soon as
these two steps leave the same state; and a step that leaves the state as it found it
can be left out.

Main results:

- Theorem `Interchangeable.of_state_eq`: a step gives way to one that leaves the same
  state.
- Theorem `LeavesNoTrace.of_state_eq`: a step that keeps the state can be left out.
-/

namespace ExecContext

variable {σ ι α : Type} {step : σ → ι → Outcome σ α} {s : σ} {before : List ι} {i j : ι}

/-- The replies of a run to the steps before a step, to that step, and to the steps after
it. -/
theorem run_middle (step : σ → ι → Outcome σ α) (s : σ) (before : List ι) (i : ι)
    (after : List ι) :
    run step s (before ++ i :: after) =
      ((run step s before).1 ++
          (step (run step s before).2 i).toReply ::
            (run step (step (run step s before).2 i).state after).1,
        (run step (step (run step s before).2 i).state after).2) := by
  rw [run_append, run_cons]

/-- The first replies of a run are those of its first steps. -/
theorem take_run (step : σ → ι → Outcome σ α) (s : σ) (is : List ι) (k : Nat) :
    (run step s is).1.take k = (run step s (is.take k)).1 := by
  induction is generalizing s k with
  | nil => simp
  | cons i is ih => cases k <;> simp [run_cons, ih]

/-- The later replies of a run are those of its later steps, from what the first ones leave. -/
theorem drop_run (step : σ → ι → Outcome σ α) (s : σ) (is : List ι) (k : Nat) :
    (run step s is).1.drop k = (run step (run step s (is.take k)).2 (is.drop k)).1 := by
  induction is generalizing s k with
  | nil => simp
  | cons i is ih => cases k <;> simp [run_cons, ih]

/-! ## Replacing a step -/

/-- With `j` in the place of `i` a run gives the same replies to all other steps and ends
in the same state. -/
structure Interchangeable (step : σ → ι → Outcome σ α) (s : σ) (before : List ι) (i j : ι)
    (after : List ι) : Prop where
  replies : (run step s (before ++ i :: after)).1.eraseIdx before.length =
    (run step s (before ++ j :: after)).1.eraseIdx before.length
  state : (run step s (before ++ i :: after)).2 = (run step s (before ++ j :: after)).2

/-- The replies of a run but for the one to a step in its midst. -/
theorem eraseIdx_run_middle (step : σ → ι → Outcome σ α) (s : σ) (before : List ι) (i : ι)
    (after : List ι) :
    (run step s (before ++ i :: after)).1.eraseIdx before.length =
      (run step s before).1 ++ (run step (step (run step s before).2 i).state after).1 := by
  have hlength : (run step s before).1.length ≤ before.length :=
    Nat.le_of_eq (length_run step s before)
  rw [run_middle, List.eraseIdx_append_of_length_le hlength, length_run, Nat.sub_self]
  rfl

/-- A step gives way to one that leaves the same state. -/
theorem Interchangeable.of_state_eq
    (same : (step (run step s before).2 i).state = (step (run step s before).2 j).state)
    (after : List ι) : Interchangeable step s before i j after := by
  constructor
  · rw [eraseIdx_run_middle, eraseIdx_run_middle, same]
  · rw [run_middle, run_middle, same]

/-! ## Leaving a step out -/

/-- Without the step `i` a run gives the same replies to all other steps and ends in the
same state. -/
structure LeavesNoTrace (step : σ → ι → Outcome σ α) (s : σ) (before : List ι) (i : ι)
    (after : List ι) : Prop where
  replies : (run step s (before ++ i :: after)).1.eraseIdx before.length =
    (run step s (before ++ after)).1
  state : (run step s (before ++ i :: after)).2 = (run step s (before ++ after)).2

/-- A step that keeps the state can be left out. -/
theorem LeavesNoTrace.of_state_eq
    (kept : (step (run step s before).2 i).state = (run step s before).2) (after : List ι) :
    LeavesNoTrace step s before i after := by
  constructor
  · rw [eraseIdx_run_middle, kept, run_append]
  · rw [run_middle, kept, run_append]

end ExecContext
