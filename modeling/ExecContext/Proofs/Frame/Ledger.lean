import ExecContext.Proofs.Frame.Handle

/-!
# Ledgers of frames

A ledger records which frames changed hands and how: frames come in by being
pushed, saved, written over a current frame or copied, and go out by being handed
back, written over or lost with their chain.  What a step moves is read off the
step, its answer, and what stood on top and under the step's handle before it.

Main results:

- Theorem `SavedPool.count_frames_remove`: using a handle up takes out the frames of
  its chain.
- Theorem `FrameStack.balances_step`: the ledger of a step balances the frames on the
  stack and in the saved chains before the step against those after it.
-/

namespace ExecContext

variable {F : Type}

/-- Frames that changed hands, by the way in which they did. -/
structure Ledger (F : Type) where
  /-- Pushed, saved, written over a current frame, copied, or resumed. -/
  introduced : List F := []
  /-- Handed back by a pop, a restore or a resume. -/
  handedBack : List F := []
  /-- Current frames that were written over. -/
  overwritten : List F := []
  /-- In a chain that was discarded, or whose restore or resume was refused. -/
  lost : List F := []

namespace Ledger

/-- The movements of one ledger and then those of another. -/
def append (m k : Ledger F) : Ledger F where
  introduced := m.introduced ++ k.introduced
  handedBack := m.handedBack ++ k.handedBack
  overwritten := m.overwritten ++ k.overwritten
  lost := m.lost ++ k.lost

instance : Append (Ledger F) :=
  ⟨append⟩

variable [BEq F]

/-- Between `before` and `after` occurrences of a frame, the ledger accounts for every
one that came in or went out. -/
def Balances (m : Ledger F) (x : F) (before after : Nat) : Prop :=
  before + m.introduced.count x =
    after + m.handedBack.count x + m.overwritten.count x + m.lost.count x

theorem balances_empty (x : F) (k : Nat) : ({} : Ledger F).Balances x k k :=
  rfl

/-- Ledgers that balance one after the other balance together. -/
theorem Balances.append {m k : Ledger F} {x : F} {before between after : Nat}
    (hm : m.Balances x before between) (hk : k.Balances x between after) :
    (m ++ k).Balances x before after := by
  change before + (m.introduced ++ k.introduced).count x =
    after + (m.handedBack ++ k.handedBack).count x +
      (m.overwritten ++ k.overwritten).count x + (m.lost ++ k.lost).count x
  unfold Balances at hm hk
  simp only [List.count_append]
  omega

end Ledger

/-! ## Counting frames -/

/-- The first frame counts apart from the rest. -/
theorem count_cons_eq [BEq F] (x f : F) (rest : List F) :
    (f :: rest).count x = [f].count x + rest.count x := by
  have happend : ([f] ++ rest).count x = [f].count x + rest.count x := List.count_append
  exact happend

namespace SavedPool

/-- All frames that wait, chain after chain. -/
def frames (p : SavedPool F) : List F :=
  p.outstanding.flatMap SavedChain.frames

theorem frames_issue (p : SavedPool F) (c : SavedChain F) :
    (p.issue c).frames = p.frames ++ c.frames := by
  simp [frames, outstanding, issue]

/-- Using a handle up takes out the frames of its chain. -/
theorem count_frames_remove [BEq F] {p : SavedPool F} {h : Nat} {c : SavedChain F}
    (hc : p.get? h = some c) (x : F) :
    p.frames.count x = (p.remove h).frames.count x + c.frames.count x := by
  rcases p with ⟨slots⟩
  have hslot : slots[h]?.join = some c := hc
  change ((slots.filterMap id).flatMap SavedChain.frames).count x =
    (((slots.set h none).filterMap id).flatMap SavedChain.frames).count x + c.frames.count x
  clear hc
  induction slots generalizing h with
  | nil => simp at hslot
  | cons slot slots ih =>
    cases h with
    | zero =>
      have hfirst : slot = some c := by simpa using hslot
      subst hfirst
      simp [List.count_append, Nat.add_comm]
    | succ h =>
      have hrest := ih (by simpa using hslot)
      cases slot with
      | none => simpa using hrest
      | some d =>
        change (d.frames ++ (slots.filterMap id).flatMap SavedChain.frames).count x =
          (d.frames ++ ((slots.set h none).filterMap id).flatMap SavedChain.frames).count x +
            c.frames.count x
        rw [List.count_append, List.count_append, hrest]
        omega

end SavedPool

/-! ## What a step moves -/

/-- What a step moves, given the frame on top and the chains under their handles before it,
and the step's answer. -/
def FrameStep.movement (top : Option F) (waiting : Nat → Option (SavedChain F)) :
    FrameStep F → FrameAnswer F → Ledger F
  | .push f, _ => { introduced := [f] }
  | .pop, .frame found => { handedBack := found.toList }
  | .modifyTop change, _ =>
    { introduced := (top.map change).toList, overwritten := top.toList }
  | .duplicate, _ => { introduced := top.toList }
  | .save f, _ => { introduced := [f] }
  | .discard h, .done => { lost := (waiting h).toList.flatMap SavedChain.frames }
  | .restore _, .restored f => { handedBack := [f] }
  | .restore h, .refused _ => { lost := (waiting h).toList.flatMap SavedChain.frames }
  | .resume h, .done =>
    { introduced := (waiting h).toList.map SavedChain.current
      handedBack := (waiting h).toList.map SavedChain.current }
  | .resume h, .refused _ => { lost := (waiting h).toList.flatMap SavedChain.frames }
  | _, _ => {}

namespace FrameStack

variable [BEq F]

/-- How often a frame occurs on a stack and in the saved chains. -/
def occurrences (s : FrameStack F) (p : SavedPool F) (x : F) : Nat :=
  s.frames.count x + p.frames.count x

/-- A chain that leaves the saved chains and comes to no stack is lost. -/
theorem balances_lost (s : FrameStack F) {p : SavedPool F} {h : Nat} {c : SavedChain F}
    (hc : p.get? h = some c) (x : F) :
    ({ lost := (p.get? h).toList.flatMap SavedChain.frames } : Ledger F).Balances x
      (s.occurrences p x) (s.occurrences (p.remove h) x) := by
  have hcount := SavedPool.count_frames_remove hc x
  have hlost : (p.get? h).toList.flatMap SavedChain.frames = c.frames := by
    rw [hc]
    exact List.append_nil c.frames
  rw [hlost]
  change s.frames.count x + p.frames.count x =
    s.frames.count x + (p.remove h).frames.count x + 0 + 0 + c.frames.count x
  omega

/-- The ledger of a step balances the frames before it against those after it. -/
theorem balances_step (s : FrameStack F) (p : SavedPool F) (i : FrameStep F) (x : F) :
    (i.movement s.peek p.get? (s.step p i).answer).Balances x (s.occurrences p x)
      ((s.step p i).state.1.occurrences (s.step p i).state.2 x) := by
  rcases s with ⟨frames⟩
  cases i with
  | push f =>
    change frames.count x + p.frames.count x + [f].count x =
      (f :: frames).count x + p.frames.count x
    rw [count_cons_eq x f frames]
    omega
  | pop =>
    cases frames with
    | nil => exact Ledger.balances_empty x _
    | cons f rest =>
      change (f :: rest).count x + p.frames.count x =
        rest.count x + p.frames.count x + [f].count x
      rw [count_cons_eq x f rest]
      omega
  | peek | frames => exact Ledger.balances_empty x _
  | modifyTop change =>
    cases frames with
    | nil => exact Ledger.balances_empty x _
    | cons f rest =>
      change (f :: rest).count x + p.frames.count x + [change f].count x =
        (change f :: rest).count x + p.frames.count x + 0 + [f].count x
      rw [count_cons_eq x f rest, count_cons_eq x (change f) rest]
      omega
  | duplicate =>
    cases frames with
    | nil => exact Ledger.balances_empty x _
    | cons f rest =>
      change (f :: rest).count x + p.frames.count x + [f].count x =
        (f :: f :: rest).count x + p.frames.count x
      rw [count_cons_eq x f (f :: rest)]
      omega
  | save f =>
    change frames.count x + p.frames.count x + [f].count x =
      0 + (p.issue ⟨f, frames⟩).frames.count x
    rw [SavedPool.frames_issue, List.count_append]
    change _ = 0 + (p.frames.count x + (f :: frames).count x)
    rw [count_cons_eq x f frames]
    omega
  | inspect h =>
    rw [state_step_inspect]
    exact Ledger.balances_empty x _
  | discard h =>
    cases hc : p.get? h with
    | none =>
      rw [step_discard_noHandle _ hc]
      exact Ledger.balances_empty x _
    | some c =>
      rw [step_discard_found _ hc]
      exact balances_lost _ hc x
  | restore h =>
    cases hc : p.get? h with
    | none =>
      rw [step_restore_noHandle _ hc]
      exact Ledger.balances_empty x _
    | some c =>
      cases frames with
      | nil =>
        rw [step_restore_found rfl hc]
        have hcount := SavedPool.count_frames_remove hc x
        change 0 + p.frames.count x =
          c.outer.count x + (p.remove h).frames.count x + [c.current].count x
        change _ = _ + (c.current :: c.outer).count x at hcount
        rw [count_cons_eq x c.current c.outer] at hcount
        omega
      | cons f rest =>
        rw [step_restore_refused (List.cons_ne_nil f rest) hc]
        exact balances_lost _ hc x
  | resume h =>
    cases hc : p.get? h with
    | none =>
      rw [step_resume_noHandle hc]
      exact Ledger.balances_empty x _
    | some c =>
      cases frames with
      | nil =>
        rw [step_resume_found rfl hc]
        have hcount := SavedPool.count_frames_remove hc x
        simp only [FrameStep.movement, hc, Ledger.Balances, occurrences]
        change 0 + p.frames.count x + [c.current].count x =
          c.frames.count x + (p.remove h).frames.count x + [c.current].count x
        omega
      | cons f rest =>
        rw [step_resume_refused (List.cons_ne_nil f rest) hc]
        exact balances_lost _ hc x

end FrameStack

end ExecContext
