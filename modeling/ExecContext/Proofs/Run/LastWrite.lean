import ExecContext.Outcome

/-!
# The last write to a cell

A cell is a place in a state that some steps write, whatever it held, and others amend if
it holds anything.  After a run from an empty cell, the cell holds what was written last,
amended by the steps since; and it is still empty if no step wrote it.

Main results:

- Definition `ActsOnCell`: how steps write and amend a cell.
- Definition `WrittenLast`: the last write of a run, with the steps after it.
- Theorem `ActsOnCell.find_run_eq_some_iff`: what a cell holds after a run.
-/

namespace ExecContext

variable {σ ι α β : Type}

/-- The steps that write a cell leave in it what they write; all others amend what it
holds. -/
structure ActsOnCell (step : σ → ι → Outcome σ α) (find : σ → Option β) (writes : ι → Option β)
    (amends : ι → β → β) : Prop where
  find_step : ∀ s i, find (step s i).state = (writes i).or ((find s).map (amends i))

/-- The last step of the list that writes the cell writes `b`, and the steps `later` come
after it. -/
def WrittenLast (writes : ι → Option β) (is : List ι) (b : β) (later : List ι) : Prop :=
  ∃ earlier i, is = earlier ++ i :: later ∧ writes i = some b ∧ ∀ j ∈ later, writes j = none

/-- Either no step writes the cell, or one of them is the last to do so. -/
theorem writtenLast_or_unwritten (writes : ι → Option β) (is : List ι) :
    (∀ i ∈ is, writes i = none) ∨ ∃ b later, WrittenLast writes is b later := by
  induction is with
  | nil =>
    left
    intro i hi
    cases hi
  | cons i is ih =>
    rcases ih with hnone | ⟨b, later, earlier, j, rfl, hj, hlater⟩
    · cases hi : writes i with
      | none =>
        left
        intro j hj
        rcases List.mem_cons.mp hj with rfl | hj
        · exact hi
        · exact hnone j hj
      | some b => exact Or.inr ⟨b, is, [], i, rfl, hi, hnone⟩
    · exact Or.inr ⟨b, later, i :: earlier, j, rfl, hj, hlater⟩

namespace WrittenLast

variable {writes : ι → Option β} {is more later : List ι} {b : β}

/-- Some step wrote what was written last. -/
theorem exists_mem (h : WrittenLast writes is b later) : ∃ i ∈ is, writes i = some b := by
  rcases h with ⟨earlier, i, rfl, hi, -⟩
  exact ⟨i, by simp, hi⟩

/-- It stays the last write over further steps that do not write. -/
theorem append (h : WrittenLast writes is b later) (hmore : ∀ j ∈ more, writes j = none) :
    WrittenLast writes (is ++ more) b (later ++ more) := by
  rcases h with ⟨earlier, i, rfl, hi, hlater⟩
  refine ⟨earlier, i, by simp, hi, fun j hj => ?_⟩
  rcases List.mem_append.mp hj with hj | hj
  · exact hlater j hj
  · exact hmore j hj

end WrittenLast

namespace ActsOnCell

variable {step : σ → ι → Outcome σ α} {find : σ → Option β} {writes : ι → Option β}
  {amends : ι → β → β} {s : σ} {is : List ι}

/-- Steps that do not write a cell only amend what it holds. -/
theorem find_run_of_unwritten (cell : ActsOnCell step find writes amends)
    (h : ∀ i ∈ is, writes i = none) (s : σ) :
    find (run step s is).2 = (find s).map fun b => is.foldl (fun b i => amends i b) b := by
  induction is generalizing s with
  | nil => simp
  | cons i is ih =>
    have hi : writes i = none := h i List.mem_cons_self
    have his : ∀ j ∈ is, writes j = none := by
      intro j hj
      exact h j (List.mem_cons_of_mem i hj)
    rw [run_cons, ih his, cell.find_step, hi, Option.none_or, Option.map_map]
    rfl

/-- After its last write a cell holds what was written, amended by the steps since. -/
theorem find_run_of_writtenLast (cell : ActsOnCell step find writes amends) {b : β}
    {later : List ι} (h : WrittenLast writes is b later) (s : σ) :
    find (run step s is).2 = some (later.foldl (fun b i => amends i b) b) := by
  rcases h with ⟨earlier, i, rfl, hi, hlater⟩
  rw [run_append, run_cons, cell.find_run_of_unwritten hlater, cell.find_step, hi, Option.some_or,
    Option.map_some]

/-- An empty cell holds, after a run, what was written last and amended since. -/
theorem find_run_eq_some_iff (cell : ActsOnCell step find writes amends) (start : find s = none)
    (is : List ι) (b : β) :
    find (run step s is).2 = some b ↔
      ∃ d later, WrittenLast writes is d later ∧ b = later.foldl (fun b i => amends i b) d := by
  constructor
  · intro hb
    rcases writtenLast_or_unwritten writes is with hnone | ⟨d, later, hlast⟩
    · rw [cell.find_run_of_unwritten hnone, start] at hb
      cases hb
    · rw [cell.find_run_of_writtenLast hlast] at hb
      exact ⟨d, later, hlast, (Option.some.inj hb).symm⟩
  · rintro ⟨d, later, hlast, rfl⟩
    exact cell.find_run_of_writtenLast hlast s

end ActsOnCell

end ExecContext
