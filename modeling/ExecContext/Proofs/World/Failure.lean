import ExecContext.Class.Filter
import ExecContext.Proofs.Context.Futile
import ExecContext.Proofs.Run.OneStep
import ExecContext.Proofs.World.Detached

/-!
# Failing steps

A futile step leaves the world as it found it, so a run may as well do without it.  A
refused restore or resume leaves the world without the chain and otherwise as it found
it, so a run may as well discard the chain.  Neither shows in the answers, the sizes or
the events of any other step.

Main results:

- Theorem `ContextWorld.refused_iff`: when a restore or a resume is refused, and how.
- Theorem `ContextWorld.state_step_of_refused`: it leaves what a discard leaves.
- Theorem `ContextWorld.state_step_of_futile`: a futile step changes nothing.
- Theorem `World.failing_step_changes_nothing`: the same for whole runs, of contexts and
  of a bare registry.
-/

namespace ExecContext

variable {F φ : Type} {n : Nat}

namespace ContextWorld

variable [FilterRule φ]

/-- A restore or a resume is refused exactly if its chain waits and the context has frames;
the refusal carries their number. -/
theorem refused_iff (v : ContextWorld F φ n) (t : Fin n) {h : Nat} {i : FrameStep F}
    (closes : i = .restore h ∨ i = .resume h) (e : RestoreError) :
    (v.step ⟨t, .frame i⟩).answer.result = .frame (.refused e) ↔
      (v.saved.get? h).isSome ∧ (v.member t).frames ≠ [] ∧
        e.active = (v.member t).frames.length := by
  have hstack := FrameStack.refused_iff (v.bare.member t) v.saved closes e
  rw [member_bare] at hstack
  rw [result_frame, ContextAnswer.frame.injEq]
  change ((v.bare.member t).step v.saved i).answer = .refused e ↔ _
  rw [member_bare]
  exact hstack

/-- A refused restore or resume leaves what a discard leaves. -/
theorem state_step_of_refused {v : ContextWorld F φ n} {t : Fin n} {h : Nat} {i : FrameStep F}
    (closes : i = .restore h ∨ i = .resume h) {e : RestoreError}
    (refused : (v.step ⟨t, .frame i⟩).answer.result = .frame (.refused e)) :
    (v.step ⟨t, .frame i⟩).state = (v.step ⟨t, .frame (.discard h)⟩).state := by
  have hrefused := (FrameStack.refused_iff (v.member t).stack v.saved closes e).mpr
    ((refused_iff v t closes e).mp refused)
  rw [state_frame, state_frame, FrameStack.state_step_of_refused closes hrefused]

/-- A futile step changes nothing. -/
theorem state_step_of_futile {v : ContextWorld F φ n} {t : Fin n} {s : ContextStep F φ}
    (futile : (v.member t).Futile v.saved s) : (v.step ⟨t, s⟩).state = v :=
  World.state_step_of_unchanged (Context.state_step_of_futile futile)

end ContextWorld

namespace World

/-- A restore or a resume is refused exactly if its chain waits and its context has frames;
the refusal tells their number, and nothing but the step itself would be different had the
chain been discarded instead.  Any other step that reports a failure is one that found
missing what it asked for, and nothing else would be different without it.  So it is at any
point of any run of contexts, and of a registry that may redeclare copies of its classes. -/
theorem failing_step_changes_nothing [FilterRule φ] :
    (∀ (w : ContextWorld F φ n) (before after : List (Addressed n (ContextStep F φ)))
        (t : Fin n),
      let v := (run ContextWorld.step w before).2
      let frames := (v.member t).frames
      (∀ (h : Nat) (i : FrameStep F), i = .restore h ∨ i = .resume h → ∀ e,
        ((v.step ⟨t, .frame i⟩).answer.result = .frame (.refused e) ↔
          (v.saved.get? h).isSome ∧ frames ≠ [] ∧ e.active = frames.length) ∧
        ((v.step ⟨t, .frame i⟩).answer.result = .frame (.refused e) →
          e.message = "cannot restore a saved frame stack while " ++ toString frames.length ++
            " frame(s) are active" ∧
          Interchangeable ContextWorld.step w before ⟨t, .frame i⟩ ⟨t, .frame (.discard h)⟩
            after)) ∧
      ∀ s : ContextStep F φ,
        ((v.step ⟨t, s⟩).answer.result.reportsFailure = true ↔
          (v.member t).Futile v.saved s) ∧
        ((v.step ⟨t, s⟩).answer.result.reportsFailure = true →
          LeavesNoTrace ContextWorld.step w before ⟨t, s⟩ after)) ∧
    ∀ (before after : List (RegistryStep φ)) (i : RegistryStep φ), i.isDeclaration = false →
      let r := (run Registry.step .empty before).2
      ((r.step i).answer.reportsFailure = true ↔ r.Futile i) ∧
        ((r.step i).answer.reportsFailure = true →
          LeavesNoTrace Registry.step .empty before i after) := by
  constructor
  · intro w before after t v frames
    constructor
    · intro h i closes e
      have hiff := ContextWorld.refused_iff v t closes e
      refine ⟨hiff, ?_⟩
      intro refused
      have hactive : e.active = frames.length := (hiff.mp refused).2.2
      constructor
      · rw [← hactive]
        rfl
      · exact Interchangeable.of_state_eq (ContextWorld.state_step_of_refused closes refused) after
    · intro s
      have hiff : (v.step ⟨t, s⟩).answer.result.reportsFailure = true ↔
          (v.member t).Futile v.saved s :=
        Context.reportsFailure_step_iff (v.member t) v.saved s
      refine ⟨hiff, ?_⟩
      intro reported
      exact LeavesNoTrace.of_state_eq (ContextWorld.state_step_of_futile (hiff.mp reported)) after
  · intro before after i hi r
    have hiff := Registry.reportsFailure_step_iff r hi
    refine ⟨hiff, ?_⟩
    intro reported
    have keyed : r.Keyed := Registry.keyed_run before
    exact LeavesNoTrace.of_state_eq (Registry.state_step_of_futile keyed (hiff.mp reported)) after

/-- A chain of the first context is refused on the second over one frame, which is as if it
were discarded; a pop on the first and an edit of an undeclared property of a copied class
are as if they had not been. -/
theorem failing_step_changes_nothing_over_one_frame :
    let w : ContextWorld Nat StockFilter 2 := ContextWorld.create (Vector.replicate 2 {})
    let before : List (Addressed 2 (ContextStep Nat StockFilter)) :=
      [⟨0, .frame (.save 7)⟩, ⟨1, .frame (.push 4)⟩]
    let after : List (Addressed 2 (ContextStep Nat StockFilter)) :=
      [⟨0, .frame (.push 5)⟩, ⟨1, .frame .pop⟩, ⟨1, .frame (.restore 0)⟩]
    let v := (run ContextWorld.step w before).2
    let classes : List (RegistryStep StockFilter) := [.symbol (.declareClass { name := [65] })]
    let edit : RegistryStep StockFilter := .redeclareCopy [97] (.edit [120] {})
    ((v.step ⟨1, .frame (.restore 0)⟩).answer.result = .frame (.refused ⟨1⟩) ∧
      Interchangeable ContextWorld.step w before ⟨1, .frame (.restore 0)⟩
        ⟨1, .frame (.discard 0)⟩ after) ∧
      LeavesNoTrace ContextWorld.step w before ⟨0, .frame .pop⟩ after ∧
      LeavesNoTrace Registry.step .empty classes edit [.symbol .counts] := by
  intro w before after v classes edit
  have contexts := (@failing_step_changes_nothing Nat StockFilter 2 _).1 w before after
  have registry := (@failing_step_changes_nothing Nat StockFilter 2 _).2
  have hrestore := (contexts 1).1 0 (.restore 0) (Or.inl rfl) ⟨1⟩
  have hrefused : (v.step ⟨1, .frame (.restore 0)⟩).answer.result = .frame (.refused ⟨1⟩) := by
    apply hrestore.1.mpr
    decide +kernel
  have hpop := (contexts 0).2 (.frame .pop)
  have hedit := registry classes [.symbol .counts] edit rfl
  exact ⟨⟨hrefused, (hrestore.2 hrefused).2⟩, hpop.2 (by decide +kernel), hedit.2 (by decide)⟩

end World

end ExecContext
