import ExecContext.Outcome

/-!
# Runs seen through a view

A view shows a part of the state.  Where some steps leave that part alone and the others
go by it only, the view of a run is settled by those others.

Main results:

- Theorem `view_run_filter`: the steps that leave the view alone may be left out.
- Theorem `view_run_filterMap`: the other steps may be taken on the part alone.
-/

namespace ExecContext

variable {σ τ ι κ α β : Type} {step : σ → ι → Outcome σ α} {view : σ → τ}

/-- Steps that leave a view alone may be left out of a run that is looked at through it. -/
theorem view_run_filter {concerns : ι → Bool}
    (other : ∀ s i, concerns i = false → view (step s i).state = view s)
    (same : ∀ s q i, view s = view q → concerns i = true →
      view (step s i).state = view (step q i).state)
    {s q : σ} (start : view s = view q) (is : List ι) :
    view (run step s is).2 = view (run step q (is.filter concerns)).2 := by
  induction is generalizing s q with
  | nil => exact start
  | cons i is ih =>
    cases hi : concerns i with
    | true =>
      rw [List.filter_cons_of_pos hi, run_cons, run_cons]
      exact ih (same s q i start hi)
    | false =>
      have hskip : ¬ concerns i = true := by simp [hi]
      rw [List.filter_cons_of_neg hskip, run_cons]
      exact ih ((other s i hi).trans start)

/-- Where a step does to the viewed part what another machine does, or leaves it alone, a run
does to it what the run of the other machine does. -/
theorem view_run_filterMap {part : τ → κ → Outcome τ β} {project : ι → Option κ}
    (self : ∀ s i k, project i = some k → view (step s i).state = (part (view s) k).state)
    (other : ∀ s i, project i = none → view (step s i).state = view s) (s : σ) (is : List ι) :
    view (run step s is).2 = (run part (view s) (is.filterMap project)).2 := by
  induction is generalizing s with
  | nil => rfl
  | cons i is ih =>
    cases hi : project i with
    | none => rw [List.filterMap_cons_none hi, run_cons, ih, other s i hi]
    | some k => rw [List.filterMap_cons_some hi, run_cons, run_cons, ih, self s i k hi]

end ExecContext
