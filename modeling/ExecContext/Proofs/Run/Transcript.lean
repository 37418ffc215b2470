import ExecContext.Outcome

/-!
# Transcripts and logs of runs

A run gives one reply for each step.  Steps and replies side by side make up a transcript,
in which the steps of one kind can be followed with their answers; and the events that the
steps of one kind emitted make up a log.

Main results:

- Definitions `transcript` and `logOf`: what steps of one kind answered and emitted.
- Theorem `transcript_run`: steps that act on a part of the state as on another machine
  answer as that machine does when it takes these steps only.
- Theorem `told_run_logOf`: what the events of each step tell of a view, the log of a run
  tells of it.
-/

namespace ExecContext

variable {σ τ ι κ α β γ : Type}

/-- The steps of one kind in the order in which they were taken, each with its answer. -/
def transcript (project : ι → Option κ) (is : List ι) (replies : List (Reply α)) :
    List (κ × α) :=
  (is.zip replies).filterMap fun e => (project e.1).map fun k => (k, e.2.answer)

/-- What the steps of one kind answered, in order. -/
def answersTo (project : ι → Option κ) (is : List ι) (replies : List (Reply α)) : List α :=
  (transcript project is replies).map Prod.snd

/-- The events that the steps of one kind emitted, in order. -/
def logOf (concerns : ι → Bool) (is : List ι) (replies : List (Reply α)) : List Event :=
  (is.zip replies).flatMap fun e => if concerns e.1 then e.2.events else []

/-- A run replies to each of its steps as that step does from some state. -/
theorem exists_state_of_mem_zip {step : σ → ι → Outcome σ α} {s : σ} {is : List ι} {i : ι}
    {r : Reply α} (h : (i, r) ∈ is.zip (run step s is).1) : ∃ u, r = (step u i).toReply := by
  induction is generalizing s with
  | nil => cases h
  | cons j is ih =>
    rw [run_cons, List.zip_cons_cons, List.mem_cons] at h
    rcases h with heq | hrest
    · cases heq
      exact ⟨s, rfl⟩
    · exact ih hrest

theorem transcript_cons_none {project : ι → Option κ} {i : ι} (hi : project i = none)
    (is : List ι) (r : Reply α) (replies : List (Reply α)) :
    transcript project (i :: is) (r :: replies) = transcript project is replies := by
  unfold transcript
  rw [List.zip_cons_cons, List.filterMap_cons_none]
  simp [hi]

theorem transcript_cons_some {project : ι → Option κ} {i : ι} {k : κ} (hi : project i = some k)
    (is : List ι) (r : Reply α) (replies : List (Reply α)) :
    transcript project (i :: is) (r :: replies) =
      (k, r.answer) :: transcript project is replies := by
  unfold transcript
  rw [List.zip_cons_cons, List.filterMap_cons_some]
  simp [hi]

theorem logOf_cons (concerns : ι → Bool) (i : ι) (is : List ι) (r : Reply α)
    (replies : List (Reply α)) :
    logOf concerns (i :: is) (r :: replies) =
      (if concerns i then r.events else []) ++ logOf concerns is replies :=
  rfl

/-- The log of all steps of a run. -/
theorem logOf_true (step : σ → ι → Outcome σ α) (s : σ) (is : List ι) :
    logOf (fun _ => true) is (run step s is).1 = (run step s is).1.flatMap Reply.events := by
  induction is generalizing s with
  | nil => rfl
  | cons i is ih =>
    rw [run_cons, logOf_cons, ih, List.flatMap_cons]
    rfl

/-- Where a step of one kind does to the viewed part what another machine does, with the
answer shown in its own way, and all other steps leave the part alone, the transcript of these
steps is the one of the other machine. -/
theorem transcript_run {step : σ → ι → Outcome σ α} {project : ι → Option κ} (view : σ → τ)
    (part : τ → κ → Outcome τ β) (read : α → γ) (shown : κ → β → γ)
    (self : ∀ s i k, project i = some k →
      view (step s i).state = (part (view s) k).state ∧
        read (step s i).answer = shown k (part (view s) k).answer)
    (other : ∀ s i, project i = none → view (step s i).state = view s) (s : σ) (is : List ι) :
    (transcript project is (run step s is).1).map (fun e => (e.1, read e.2)) =
      (transcript some (is.filterMap project)
        (run part (view s) (is.filterMap project)).1).map fun e => (e.1, shown e.1 e.2) := by
  induction is generalizing s with
  | nil => rfl
  | cons i is ih =>
    cases hi : project i with
    | none =>
      rw [run_cons, transcript_cons_none hi, ih, other s i hi, List.filterMap_cons_none hi]
    | some k =>
      rcases self s i k hi with ⟨hstate, hanswer⟩
      rw [run_cons, transcript_cons_some hi, List.map_cons, ih, hstate, hanswer,
        List.filterMap_cons_some hi, run_cons, transcript_cons_some rfl, List.map_cons]

/-- What the events of each step that matters tell of a view, the log of a run tells of it, if
it can be put together from the events of one part of the run and those of the next. -/
theorem told_run_logOf {step : σ → ι → Outcome σ α} (view : σ → τ)
    {Tells : τ → List Event → τ → Prop} (concerns : ι → Bool) (silence : ∀ x, Tells x [] x)
    (append : ∀ {x y z es fs}, Tells x es y → Tells y fs z → Tells x (es ++ fs) z)
    (told : ∀ s i, Tells (view s) (if concerns i then (step s i).events else [])
      (view (step s i).state)) (s : σ) (is : List ι) :
    Tells (view s) (logOf concerns is (run step s is).1) (view (run step s is).2) := by
  induction is generalizing s with
  | nil => exact silence (view s)
  | cons i is ih =>
    rw [run_cons, logOf_cons]
    exact append (told s i) (ih (step s i).state)

end ExecContext
