import ExecContext.World

/-!
# Handles of detached chains

A save issues a handle; discarding, restoring and resuming use one up; no other
step touches the saved chains.  So an issued handle finds its chain until some
step, on whichever stack, uses it up, and finds nothing ever after.

Main results:

- Theorem `FrameStack.saved_step`: the saved chains that a step leaves.
- Theorem `SavedPool.get?_after`: a step that does not use a handle up leaves what
  the handle finds.
- Theorem `StackWorld.get?_run`: the same for a run of steps on any stacks.
- Theorems `FrameStack.step_restore_found`, `FrameStack.step_restore_refused` and
  their companions: the ways in which a step that names a handle ends.
-/

namespace ExecContext

variable {F : Type} {n : Nat}

/-! ## Steps and the handles they name -/

namespace FrameStep

/-- The handle that a step names. -/
def handle? : FrameStep F → Option Nat
  | .inspect h | .discard h | .restore h | .resume h => some h
  | _ => none

/-- Whether a step uses a handle up, if that handle still finds a chain.  A restore or
a resume does so even when it is refused. -/
def consumes (h : Nat) : FrameStep F → Bool
  | .discard k | .restore k | .resume k => k == h
  | _ => false

/-- A step uses up no handle but the one it names. -/
theorem consumes_eq_false_of_handle?_ne {i : FrameStep F} {h : Nat} (hi : i.handle? ≠ some h) :
    i.consumes h = false := by
  cases i with
  | discard k | restore k | resume k =>
    have hk : k ≠ h := by
      intro heq
      exact hi (congrArg some heq)
    simpa [consumes] using hk
  | _ => rfl

end FrameStep

/-! ## The saved chains after a step -/

namespace SavedPool

/-- The saved chains after a step on a stack with the given frames. -/
def after (p : SavedPool F) (frames : List F) : FrameStep F → SavedPool F
  | .save f => p.issue ⟨f, frames⟩
  | .discard h | .restore h | .resume h => p.remove h
  | _ => p

@[simp]
theorem nextHandle_issue (p : SavedPool F) (c : SavedChain F) :
    (p.issue c).nextHandle = p.nextHandle + 1 := by
  simp [nextHandle, issue]

@[simp]
theorem nextHandle_remove (p : SavedPool F) (h : Nat) :
    (p.remove h).nextHandle = p.nextHandle := by
  simp [nextHandle, remove]

/-- A new handle finds the chain that was just saved. -/
@[simp]
theorem get?_issue_self (p : SavedPool F) (c : SavedChain F) :
    (p.issue c).get? p.nextHandle = some c := by
  rw [get?_issue, if_pos rfl]

/-- Using up a handle that finds nothing changes nothing. -/
theorem remove_of_get?_none {p : SavedPool F} {h : Nat} (hn : p.get? h = none) :
    p.remove h = p := by
  rcases p with ⟨slots⟩
  have hslot : slots[h]?.join = none := hn
  change (⟨slots.set h none⟩ : SavedPool F) = ⟨slots⟩
  congr 1
  apply List.ext_getElem?
  intro k
  rw [List.getElem?_set]
  split
  · rename_i hk
    subst hk
    split
    · rename_i hlt
      rw [List.getElem?_eq_getElem hlt] at hslot ⊢
      exact congrArg some hslot.symm
    · rename_i hge
      rw [List.getElem?_eq_none (Nat.le_of_not_lt hge)]
  · rfl

/-- No step takes a handle back that was issued. -/
theorem nextHandle_le_after (p : SavedPool F) (frames : List F) (i : FrameStep F) :
    p.nextHandle ≤ (p.after frames i).nextHandle := by
  cases i with
  | save f =>
    rw [after, nextHandle_issue]
    exact Nat.le_succ _
  | discard h | restore h | resume h => exact Nat.le_of_eq (nextHandle_remove p h).symm
  | _ => exact Nat.le_refl _

/-- A step that does not use an issued handle up leaves what the handle finds. -/
theorem get?_after {p : SavedPool F} {h : Nat} (issued : h < p.nextHandle) (frames : List F)
    (i : FrameStep F) :
    (p.after frames i).get? h = if i.consumes h then none else p.get? h := by
  cases i with
  | save f =>
    rw [after, get?_issue, if_neg (Nat.ne_of_lt issued)]
    rfl
  | discard k | restore k | resume k =>
    rw [after, get?_remove]
    simp only [FrameStep.consumes, beq_iff_eq, eq_comm (a := h)]
  | _ => rfl

end SavedPool

namespace FrameStack

/-! ## How a step that names a handle ends -/

variable {s : FrameStack F} {p : SavedPool F} {h : Nat} {c : SavedChain F}

theorem restore_of_empty (hs : s.frames = []) (c : SavedChain F) :
    s.restore c = .ok (c.current, ⟨c.outer⟩) := by
  rw [restore, if_pos ((isEmpty_iff s).mpr hs)]

theorem restore_of_active (hs : s.frames ≠ []) (c : SavedChain F) :
    s.restore c = .error ⟨s.depth⟩ :=
  (restore_eq_error_iff s c ⟨s.depth⟩).mpr ⟨hs, rfl⟩

/-- On an empty stack a restore hands back the current frame and leaves the outer ones. -/
theorem step_restore_found (hs : s.frames = []) (hc : p.get? h = some c) :
    s.step p (.restore h) = { answer := .restored c.current, state := (⟨c.outer⟩, p.remove h) } := by
  simp only [step, hc, restore_of_empty hs]

/-- On a stack with frames a restore is refused, and its chain is gone. -/
theorem step_restore_refused (hs : s.frames ≠ []) (hc : p.get? h = some c) :
    s.step p (.restore h) = { answer := .refused ⟨s.depth⟩, state := (s, p.remove h) } := by
  simp only [step, hc, restore_of_active hs]

/-- On an empty stack a resume leaves the whole chain. -/
theorem step_resume_found (hs : s.frames = []) (hc : p.get? h = some c) :
    s.step p (.resume h) = { answer := .done, state := (⟨c.frames⟩, p.remove h) } := by
  simp only [step, hc, restore_of_empty hs]
  rfl

/-- On a stack with frames a resume is refused, and its chain is gone. -/
theorem step_resume_refused (hs : s.frames ≠ []) (hc : p.get? h = some c) :
    s.step p (.resume h) = { answer := .refused ⟨s.depth⟩, state := (s, p.remove h) } := by
  simp only [step, hc, restore_of_active hs]

/-- A resume through a handle that finds nothing changes nothing. -/
theorem step_resume_noHandle (hn : p.get? h = none) :
    s.step p (.resume h) = { answer := .noHandle, state := (s, p) } := by
  simp only [step, hn]

/-- Giving a chain up answers nothing and leaves the stack alone. -/
theorem step_discard_found (s : FrameStack F) (hc : p.get? h = some c) :
    s.step p (.discard h) = { answer := .done, state := (s, p.remove h) } := by
  simp only [step, hc]

/-- A discard through a handle that finds nothing changes nothing. -/
theorem step_discard_noHandle (s : FrameStack F) (hn : p.get? h = none) :
    s.step p (.discard h) = { answer := .noHandle, state := (s, p) } := by
  simp only [step, hn]

/-- Looking at a chain changes nothing. -/
theorem state_step_inspect (s : FrameStack F) (p : SavedPool F) (h : Nat) :
    (s.step p (.inspect h)).state = (s, p) := by
  cases hc : p.get? h <;> simp only [step, hc]

/-- Only a restore or a resume is refused. -/
theorem closes_of_refused {i : FrameStep F} {e : RestoreError}
    (hr : (s.step p i).answer = .refused e) :
    (∃ h, i = .restore h) ∨ ∃ h, i = .resume h := by
  cases i with
  | push | pop | peek | frames | modifyTop | save => cases hr
  | duplicate => cases hp : s.peek <;> simp [step, hp] at hr
  | inspect h => cases hc : p.get? h <;> simp [step, hc] at hr
  | discard h => cases hc : p.get? h <;> simp [step, hc] at hr
  | restore h => exact .inl ⟨h, rfl⟩
  | resume h => exact .inr ⟨h, rfl⟩

/-- The saved chains that a step leaves. -/
theorem saved_step (s : FrameStack F) (p : SavedPool F) (i : FrameStep F) :
    (s.step p i).state.2 = p.after s.frames i := by
  cases i with
  | push | pop | peek | frames | modifyTop | save => rfl
  | duplicate => cases hp : s.peek <;> simp only [step, hp] <;> rfl
  | inspect h => exact congrArg Prod.snd (state_step_inspect s p h)
  | discard h =>
    cases hc : p.get? h with
    | none =>
      rw [step_discard_noHandle s hc]
      exact (SavedPool.remove_of_get?_none hc).symm
    | some c =>
      rw [step_discard_found s hc]
      rfl
  | restore h =>
    cases hc : p.get? h with
    | none =>
      rw [step_restore_noHandle s hc]
      exact (SavedPool.remove_of_get?_none hc).symm
    | some c =>
      by_cases hs : s.frames = []
      · rw [step_restore_found hs hc]
        rfl
      · rw [step_restore_refused hs hc]
        rfl
  | resume h =>
    cases hc : p.get? h with
    | none =>
      rw [step_resume_noHandle hc]
      exact (SavedPool.remove_of_get?_none hc).symm
    | some c =>
      by_cases hs : s.frames = []
      · rw [step_resume_found hs hc]
        rfl
      · rw [step_resume_refused hs hc]
        rfl

end FrameStack

/-! ## Runs -/

namespace StackWorld

theorem saved_step (w : StackWorld F n) (a : Addressed n (FrameStep F)) :
    (w.step a).state.saved = w.saved.after (w.member a.target).frames a.step :=
  FrameStack.saved_step _ _ _

/-- After a run an issued handle finds its chain, unless a step of the run used it up. -/
theorem get?_run {w : StackWorld F n} {h : Nat} (issued : h < w.saved.nextHandle)
    (is : List (Addressed n (FrameStep F))) :
    (run step w is).2.saved.get? h =
      if is.any (fun a => a.step.consumes h) then none else w.saved.get? h := by
  induction is generalizing w with
  | nil => rfl
  | cons a is ih =>
    have hsaved := saved_step w a
    have hissued : h < (w.step a).state.saved.nextHandle := by
      rw [hsaved]
      exact Nat.lt_of_lt_of_le issued (SavedPool.nextHandle_le_after _ _ _)
    rw [run_cons, ih hissued, hsaved, SavedPool.get?_after issued, List.any_cons]
    cases a.step.consumes h <;> simp

end StackWorld

end ExecContext
