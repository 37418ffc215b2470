import ExecContext.Event

/-!
# Outcomes and runs

Every component is driven by steps.  A step has an outcome: the answer, the
events that were emitted, and the state left behind.  A run takes steps one
after another and collects their replies.

Main results:

- Theorem `run_append`: a run of two lists is the run of the first and then,
  from the state it leaves, of the second.
- Theorem `length_run`: a run gives one reply for each step.
- Theorem `run_invariant`: what every step keeps, a run keeps.
- Theorem `run_related`: two runs reply alike if every step replies alike and keeps their
  states related.
-/

namespace ExecContext

/-- What a step lets its caller see. -/
structure Reply (α : Type) where
  answer : α
  events : List Event := []

/-- What a step lets its caller see, and the state it leaves. -/
structure Outcome (σ α : Type) extends Reply α where
  state : σ

/-- An answer together with the size of the component it came from. -/
structure Observed (α : Type) where
  result : α
  size : Nat
  isEmpty : Bool

namespace Outcome

variable {σ τ α β : Type}

/-- The same outcome with another answer and another state. -/
def map (f : α → β) (g : σ → τ) (o : Outcome σ α) : Outcome τ β :=
  { answer := f o.answer, events := o.events, state := g o.state }

@[simp]
theorem answer_map (f : α → β) (g : σ → τ) (o : Outcome σ α) :
    (o.map f g).answer = f o.answer :=
  rfl

@[simp]
theorem events_map (f : α → β) (g : σ → τ) (o : Outcome σ α) : (o.map f g).events = o.events :=
  rfl

@[simp]
theorem state_map (f : α → β) (g : σ → τ) (o : Outcome σ α) :
    (o.map f g).state = g o.state :=
  rfl

/-- What is seen of an outcome is its answer and its events. -/
theorem toReply_eq {o : Outcome σ α} {p : Outcome τ α} (answer : o.answer = p.answer)
    (events : o.events = p.events) : o.toReply = p.toReply := by
  rcases o with ⟨⟨a, es⟩, s⟩
  rcases p with ⟨⟨b, fs⟩, t⟩
  cases answer
  cases events
  rfl

/-- Outcomes of which the same is seen show the same in another form. -/
theorem toReply_map_eq {υ ω : Type} {o : Outcome σ α} {p : Outcome τ α}
    (h : o.toReply = p.toReply) (f : α → β) (g : σ → υ) (k : τ → ω) :
    (o.map f g).toReply = (p.map f k).toReply := by
  have hanswer : o.answer = p.answer := congrArg Reply.answer h
  have hevents : o.events = p.events := congrArg Reply.events h
  apply toReply_eq
  · rw [answer_map, answer_map, hanswer]
  · rw [events_map, events_map, hevents]

end Outcome

/-! ## Runs -/

variable {σ ι α : Type}

/-- Takes the steps in order, giving their replies and the last state. -/
def run (step : σ → ι → Outcome σ α) (s : σ) : List ι → List (Reply α) × σ
  | [] => ([], s)
  | i :: is =>
    ((step s i).toReply :: (run step (step s i).state is).1, (run step (step s i).state is).2)

@[simp]
theorem run_nil (step : σ → ι → Outcome σ α) (s : σ) : run step s [] = ([], s) :=
  rfl

theorem run_cons (step : σ → ι → Outcome σ α) (s : σ) (i : ι) (is : List ι) :
    run step s (i :: is) =
      ((step s i).toReply :: (run step (step s i).state is).1,
        (run step (step s i).state is).2) :=
  rfl

theorem run_append (step : σ → ι → Outcome σ α) (s : σ) (is js : List ι) :
    run step s (is ++ js) =
      ((run step s is).1 ++ (run step (run step s is).2 js).1,
        (run step (run step s is).2 js).2) := by
  induction is generalizing s with
  | nil => rfl
  | cons i is ih => simp [run_cons, ih]

@[simp]
theorem length_run (step : σ → ι → Outcome σ α) (s : σ) (is : List ι) :
    (run step s is).1.length = is.length := by
  induction is generalizing s with
  | nil => rfl
  | cons i is ih => simp [run_cons, ih]

/-- What every step keeps, a run keeps. -/
theorem run_invariant {step : σ → ι → Outcome σ α} {P : σ → Prop}
    (keeps : ∀ s i, P s → P (step s i).state) {s : σ} (start : P s) (is : List ι) :
    P (run step s is).2 := by
  induction is generalizing s with
  | nil => exact start
  | cons i is ih => exact ih (keeps s i start)

/-- Where related states reply alike to the steps of a kind and stay related, they reply alike
to the runs of such steps and stay related. -/
theorem run_related {τ : Type} {step : σ → ι → Outcome σ α} {act : τ → ι → Outcome τ α}
    {R : σ → τ → Prop} {P : ι → Prop}
    (keeps : ∀ s t i, P i → R s t →
      (step s i).toReply = (act t i).toReply ∧ R (step s i).state (act t i).state)
    {s : σ} {t : τ} (start : R s t) {is : List ι} (his : ∀ i ∈ is, P i) :
    (run step s is).1 = (run act t is).1 ∧ R (run step s is).2 (run act t is).2 := by
  induction is generalizing s t with
  | nil => exact ⟨rfl, start⟩
  | cons i is ih =>
    have hrest : ∀ j ∈ is, P j := by
      intro j hj
      exact his j (List.mem_cons_of_mem i hj)
    rcases keeps s t i (his i List.mem_cons_self) start with ⟨hreply, hstate⟩
    rcases ih hstate hrest with ⟨hreplies, hlast⟩
    rw [run_cons, run_cons, hreply, hreplies]
    exact ⟨rfl, hlast⟩

end ExecContext
