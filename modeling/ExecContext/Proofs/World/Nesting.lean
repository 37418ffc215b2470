import ExecContext.Class.Filter
import ExecContext.Proofs.Context.Active
import ExecContext.Proofs.Frame.Handle

/-!
# Nested runs are transparent

A bracketed program pushes and pops, saves and restores, or saves and resumes, each
opening with its own closing.  Whatever frames are active and whatever chains wait
when it starts, it is never refused, each closing step hands over the frame of its
opening, and in the end all is as it was.

Main results:

- Definition `Program`: bracketed programs, and `Program.steps`, the steps they take.
- Definition `ContextWorld.Leads`: what frame steps of a context make of its frames and
  of the saved chains, and what they hand over on the way.
- Theorem `Program.leads`: a program leaves the frames as they were, with its handles
  used up, and hands over the frames of its openings.
- Theorem `Program.transparent`: the same for worlds, with the absence of refusals.
-/

namespace ExecContext

variable {F φ : Type} {n : Nat}

/-! ## Bracketed programs -/

/-- A question about the frames of a context.  Depth and emptiness come with the answer
to any of them. -/
inductive Query where
  | current
  | frames
  | saved (handle : Nat)

/-- The step that puts a question. -/
def Query.step : Query → FrameStep F
  | .current => .peek
  | .frames => .frames
  | .saved h => .inspect h

/-- A program in which every opening has its closing. -/
inductive Program (F : Type) where
  | idle
  | seq (first second : Program F)
  /-- Push a frame, run the body, pop. -/
  | call (frame : F) (body : Program F)
  /-- Save a frame, run the body, restore the chain that was saved. -/
  | nested (frame : F) (body : Program F)
  /-- Save a frame, run the body, resume the chain that was saved, go on, pop. -/
  | resumed (frame : F) (body rest : Program F)
  | ask (query : Query)

namespace Program

/-- The number of handles that a program is issued. -/
def saves : Program F → Nat
  | idle | ask _ => 0
  | seq first second => first.saves + second.saves
  | call _ body => body.saves
  | nested _ body => body.saves + 1
  | resumed _ body rest => body.saves + 1 + rest.saves

/-- The steps of a program whose first save is issued the given handle. -/
def steps : Program F → Nat → List (FrameStep F)
  | idle, _ => []
  | seq first second, next => first.steps next ++ second.steps (next + first.saves)
  | call f body, next => [.push f] ++ body.steps next ++ [.pop]
  | nested f body, next => [.save f] ++ body.steps (next + 1) ++ [.restore next]
  | resumed f body rest, next =>
    [.save f] ++ body.steps (next + 1) ++ [.resume next] ++
      rest.steps (next + (body.saves + 1)) ++ [.pop]
  | ask query, _ => [query.step]

/-- The frames of the openings, in the order of their closing steps. -/
def closings : Program F → List F
  | idle | ask _ => []
  | seq first second => first.closings ++ second.closings
  | call f body | nested f body => body.closings ++ [f]
  | resumed f body rest => body.closings ++ [f] ++ rest.closings ++ [f]

end Program

/-- Frame steps that are all taken by context `t`. -/
def takenBy (t : Fin n) (is : List (FrameStep F)) : List (Addressed n (ContextStep F φ)) :=
  is.map fun i => ⟨t, .frame i⟩

theorem takenBy_append (t : Fin n) (is js : List (FrameStep F)) :
    (takenBy t (is ++ js) : List (Addressed n (ContextStep F φ))) =
      takenBy t is ++ takenBy t js :=
  List.map_append

/-! ## What closing steps hand over -/

namespace ContextWorld

variable [FilterRule φ]

/-- What a closing step hands over: the frame that a pop or a restore answers with, the
frame that a resume makes current, or nothing if it failed.  Other steps close nothing. -/
def handover (w : ContextWorld F φ n) (a : Addressed n (ContextStep F φ)) : List (Option F) :=
  match a.step, (w.step a).answer.result with
  | .frame .pop, .frame (.frame found) => [found]
  | .frame (.restore _), .frame (.restored f) => [some f]
  | .frame (.resume _), .frame .done => [((w.step a).state.member a.target).current]
  | .frame .pop, _ | .frame (.restore _), _ | .frame (.resume _), _ => [none]
  | _, _ => []

/-- What the closing steps of a run hand over, in order. -/
def handovers (w : ContextWorld F φ n) : List (Addressed n (ContextStep F φ)) → List (Option F)
  | [] => []
  | a :: is => w.handover a ++ handovers (w.step a).state is

theorem handovers_cons (w : ContextWorld F φ n) (a : Addressed n (ContextStep F φ))
    (is : List (Addressed n (ContextStep F φ))) :
    w.handovers (a :: is) = w.handover a ++ (w.step a).state.handovers is :=
  rfl

theorem handovers_append (w : ContextWorld F φ n)
    (is js : List (Addressed n (ContextStep F φ))) :
    w.handovers (is ++ js) = w.handovers is ++ (run ContextWorld.step w is).2.handovers js := by
  induction is generalizing w with
  | nil => rfl
  | cons a is ih => rw [List.cons_append, handovers_cons, handovers_cons, run_cons, ih,
      List.append_assoc]

/-- A refused step is a closing step that hands over nothing. -/
theorem none_mem_handover {w : ContextWorld F φ n} {a : Addressed n (ContextStep F φ)}
    {e : RestoreError} (hr : (w.step a).answer.result = .frame (.refused e)) :
    none ∈ w.handover a := by
  rcases a with ⟨t, s⟩
  cases s with
  | frame i =>
    have hrefused : ((w.member t).frameStep w.saved i).answer = .refused e := by
      injection hr
    rw [Context.answer_frameStep] at hrefused
    unfold handover
    rw [hr]
    rcases FrameStack.closes_of_refused hrefused with ⟨h, rfl⟩ | ⟨h, rfl⟩
    · exact List.mem_singleton_self none
    · exact List.mem_singleton_self none
  | symbol i | constant i => cases hr

/-- A run in which some step is refused hands over nothing at some closing step. -/
theorem none_mem_handovers {w : ContextWorld F φ n} {is : List (Addressed n (ContextStep F φ))}
    {r : Reply (Observed (ContextAnswer F φ))} (hmem : r ∈ (run ContextWorld.step w is).1)
    {e : RestoreError} (hr : r.answer.result = .frame (.refused e)) :
    none ∈ w.handovers is := by
  induction is generalizing w with
  | nil => cases hmem
  | cons a is ih =>
    rw [run_cons] at hmem
    rw [handovers_cons]
    rcases List.mem_cons.mp hmem with rfl | hlater
    · exact List.mem_append_left _ (none_mem_handover hr)
    · exact List.mem_append_right _ (ih hlater)

end ContextWorld

/-! ## Handles that were issued and used up -/

namespace SavedPool

/-- The saved chains after `k` more handles were issued and used up. -/
def retire (p : SavedPool F) (k : Nat) : SavedPool F :=
  ⟨p.slots ++ List.replicate k none⟩

@[simp]
theorem nextHandle_retire (p : SavedPool F) (k : Nat) :
    (p.retire k).nextHandle = p.nextHandle + k := by
  simp [nextHandle, retire]

@[simp]
theorem retire_zero (p : SavedPool F) : p.retire 0 = p := by
  simp [retire]

@[simp]
theorem retire_retire (p : SavedPool F) (j k : Nat) :
    (p.retire j).retire k = p.retire (j + k) := by
  simp [retire]

/-- Used handles find nothing, and the others what they found before. -/
theorem get?_retire (p : SavedPool F) (k h : Nat) : (p.retire k).get? h = p.get? h := by
  unfold get? retire
  by_cases hlt : h < p.slots.length
  · rw [List.getElem?_append_left hlt]
  · have hge : p.slots.length ≤ h := Nat.le_of_not_lt hlt
    rw [List.getElem?_append_right hge, List.getElem?_eq_none hge, List.getElem?_replicate]
    split <;> rfl

/-- A handle finds its chain after others were issued and used up. -/
theorem get?_retire_issue (p : SavedPool F) (c : SavedChain F) (k : Nat) :
    ((p.issue c).retire k).get? p.nextHandle = some c := by
  rw [get?_retire, get?_issue_self]

/-- With its own handle used up too, there is only one more used handle. -/
theorem remove_retire_issue (p : SavedPool F) (c : SavedChain F) (k : Nat) :
    ((p.issue c).retire k).remove p.nextHandle = p.retire (k + 1) := by
  simp [retire, issue, remove, nextHandle, List.replicate_succ]

end SavedPool

/-! ## Where steps lead -/

namespace ContextWorld

variable [FilterRule φ]

/-- The frame steps `is` of context `t` lead from the frames `frames` and the saved chains
`p` to the frames `left` and the saved chains `q`, and hand over the frames `handed`. -/
structure Leads (w : ContextWorld F φ n) (t : Fin n) (frames : List F) (p : SavedPool F)
    (is : List (FrameStep F)) (left : List F) (q : SavedPool F) (handed : List F) : Prop where
  state : (run ContextWorld.step (w.withFrames t frames p) (takenBy t is)).2 =
    w.withFrames t left q
  handovers : (w.withFrames t frames p).handovers (takenBy t is) = handed.map some

variable {w : ContextWorld F φ n} {t : Fin n} {frames left last handed later : List F}
  {p q r : SavedPool F} {is js : List (FrameStep F)}

/-- Steps lead on from where others led. -/
theorem Leads.append (hfirst : w.Leads t frames p is left q handed)
    (hnext : w.Leads t left q js last r later) :
    w.Leads t frames p (is ++ js) last r (handed ++ later) := by
  constructor
  · rw [takenBy_append, run_append, hfirst.state, hnext.state]
  · rw [takenBy_append, handovers_append, hfirst.state, hfirst.handovers, hnext.handovers,
      List.map_append]

/-- One step leads to where it leads the bare stack. -/
theorem leads_step {i : FrameStep F}
    (state : ((⟨frames⟩ : FrameStack F).step p i).state = (⟨left⟩, q))
    (handover : (w.withFrames t frames p).handover ⟨t, .frame i⟩ = handed.map some) :
    w.Leads t frames p [i] left q handed := by
  constructor
  · change ((w.withFrames t frames p).step ⟨t, .frame i⟩).state = _
    rw [state_frame_withFrames, state]
  · change (w.withFrames t frames p).handover ⟨t, .frame i⟩ ++ [] = _
    rw [List.append_nil, handover]

variable (w t frames p)

theorem leads_push (f : F) : w.Leads t frames p [.push f] (f :: frames) p [] :=
  leads_step rfl rfl

theorem leads_pop (f : F) : w.Leads t (f :: frames) p [.pop] frames p [f] := by
  apply leads_step
  · rfl
  · unfold handover
    rw [result_frame_withFrames]
    rfl

theorem leads_save (f : F) : w.Leads t frames p [.save f] [] (p.issue ⟨f, frames⟩) [] :=
  leads_step rfl rfl

theorem leads_query (query : Query) : w.Leads t frames p [query.step] frames p [] := by
  cases query with
  | current | frames => exact leads_step rfl rfl
  | saved h =>
    apply leads_step
    · exact FrameStack.state_step_inspect _ p h
    · rfl

/-- A restore puts a chain back after its handle and `k` later ones were issued. -/
theorem leads_restore (c : SavedChain F) (k : Nat) :
    w.Leads t [] ((p.issue c).retire k) [.restore p.nextHandle] c.outer (p.retire (k + 1))
      [c.current] := by
  have hstep := FrameStack.step_restore_found (s := ⟨[]⟩) rfl (p.get?_retire_issue c k)
  apply leads_step
  · rw [hstep, SavedPool.remove_retire_issue]
  · unfold handover
    rw [result_frame_withFrames, hstep]
    rfl

/-- A resume makes its current frame current again. -/
theorem leads_resume (c : SavedChain F) (k : Nat) :
    w.Leads t [] ((p.issue c).retire k) [.resume p.nextHandle] c.frames (p.retire (k + 1))
      [c.current] := by
  have hstep := FrameStack.step_resume_found (s := ⟨[]⟩) rfl (p.get?_retire_issue c k)
  apply leads_step
  · rw [hstep, SavedPool.remove_retire_issue]
  · unfold handover
    rw [result_frame_withFrames, state_frame_withFrames, hstep]
    change [((w.withFrames t c.frames _).member t).stack.peek] = _
    rw [stack_withFrames]
    rfl

end ContextWorld

/-! ## Running a program -/

namespace Program

variable [FilterRule φ]

/-- A save, steps that leave no frames, and a resume lead to the saved frame on top. -/
theorem leads_save_resume {w : ContextWorld F φ n} {t : Fin n} {frames handed : List F}
    {p : SavedPool F} {f : F} {is : List (FrameStep F)} {k : Nat}
    (body : w.Leads t [] (p.issue ⟨f, frames⟩) is [] ((p.issue ⟨f, frames⟩).retire k) handed) :
    w.Leads t frames p ([.save f] ++ is ++ [.resume p.nextHandle]) (f :: frames)
      (p.retire (k + 1)) (handed ++ [f]) :=
  ((w.leads_save t frames p f).append body).append (w.leads_resume t p ⟨f, frames⟩ k)

/-- A program leaves the frames as they were and the handles that it was issued used up,
and hands over the frames of its openings. -/
theorem leads (P : Program F) (w : ContextWorld F φ n) (t : Fin n) (frames : List F)
    (p : SavedPool F) :
    w.Leads t frames p (P.steps p.nextHandle) frames (p.retire P.saves) P.closings := by
  induction P generalizing frames p with
  | idle =>
    rw [saves, SavedPool.retire_zero]
    exact ⟨rfl, rfl⟩
  | seq first second ihFirst ihSecond =>
    have hsecond := ihSecond frames (p.retire first.saves)
    rw [SavedPool.nextHandle_retire, SavedPool.retire_retire] at hsecond
    exact (ihFirst frames p).append hsecond
  | call f body ih =>
    have hopen := (w.leads_push t frames p f).append (ih (f :: frames) p)
    exact hopen.append (w.leads_pop t frames _ f)
  | nested f body ih =>
    -- The body starts without frames and so leaves none: its restore cannot be refused.
    have hbody := ih [] (p.issue ⟨f, frames⟩)
    rw [SavedPool.nextHandle_issue] at hbody
    have hopen := (w.leads_save t frames p f).append hbody
    exact hopen.append (w.leads_restore t p ⟨f, frames⟩ body.saves)
  | resumed f body rest ihBody ihRest =>
    have hbody := ihBody [] (p.issue ⟨f, frames⟩)
    rw [SavedPool.nextHandle_issue] at hbody
    have hrest := ihRest (f :: frames) (p.retire (body.saves + 1))
    rw [SavedPool.nextHandle_retire, SavedPool.retire_retire] at hrest
    exact ((leads_save_resume hbody).append hrest).append (w.leads_pop t frames _ f)
  | ask query =>
    rw [saves, SavedPool.retire_zero]
    exact w.leads_query t frames p query

/-- A bracketed program, run by any context in any world, is never refused; each of its
closing steps hands over the frame of its opening; it leaves all frames and all contexts
as they were; the handles that it was issued are used up, and the earlier ones find what
they found.  Saving, running a program and resuming is like pushing. -/
theorem transparent (P : Program F) (w : ContextWorld F φ n) (t : Fin n) :
    let next := w.saved.nextHandle
    let steps := takenBy t (P.steps next)
    let o := run ContextWorld.step w steps
    (∀ r ∈ o.1, ∀ e, r.answer.result ≠ .frame (.refused e)) ∧
      w.handovers steps = P.closings.map some ∧
      (∀ u, o.2.member u = w.member u) ∧
      (∀ k, o.2.saved.get? (next + k) = none) ∧
      (∀ h, o.2.saved.get? h = w.saved.get? h) ∧
      ∀ f u, (run ContextWorld.step w (takenBy t
          ([.save f] ++ P.steps (next + 1) ++ [.resume next]))).2.member u =
        (w.step ⟨t, .frame (.push f)⟩).state.member u := by
  intro next steps o
  have hself := w.withFrames_self t
  have hleads := P.leads w t (w.member t).stack.frames w.saved
  have hstate := hleads.state
  have hhandovers := hleads.handovers
  rw [hself] at hstate hhandovers
  have hsaved : ∀ h, o.2.saved.get? h = w.saved.get? h := by
    intro h
    change (run ContextWorld.step w steps).2.saved.get? h = _
    rw [hstate, ContextWorld.saved_withFrames, SavedPool.get?_retire]
  refine ⟨?_, hhandovers, ?_, ?_, hsaved, ?_⟩
  · -- A refusal would show among the frames handed over.
    intro r hr e hrefused
    have hnone := ContextWorld.none_mem_handovers hr hrefused
    rw [hhandovers] at hnone
    simp at hnone
  · intro u
    change (run ContextWorld.step w steps).2.member u = _
    rw [hstate]
    exact ContextWorld.member_withFrames_self w t _ u
  · intro k
    rw [hsaved]
    exact SavedPool.get?_of_nextHandle_le (Nat.le_add_right _ _)
  · intro f u
    have hbody := P.leads w t [] (w.saved.issue ⟨f, (w.member t).stack.frames⟩)
    rw [SavedPool.nextHandle_issue] at hbody
    have hresumed := (leads_save_resume hbody).state
    have hpush := (w.leads_push t (w.member t).stack.frames w.saved f).state
    rw [hself] at hresumed hpush
    have hone : (run ContextWorld.step w (takenBy t [.push f])).2 =
        (w.step ⟨t, .frame (.push f)⟩).state := rfl
    rw [hresumed, ← hone, hpush]
    rfl

/-- A nested run inside a resumed one, in a context that already has a frame and has
detached another chain. -/
theorem transparent_nested_in_resumed :
    let w : ContextWorld Nat StockFilter 1 :=
      (run ContextWorld.step (ContextWorld.create (Vector.replicate 1 {}))
        [⟨0, .frame (.push 1)⟩, ⟨0, .frame (.save 2)⟩, ⟨0, .frame (.push 3)⟩]).2
    let P : Program Nat := .resumed 4 (.nested 5 (.call 6 .idle)) (.ask .current)
    let steps := takenBy 0 (P.steps w.saved.nextHandle)
    let o := run ContextWorld.step w steps
    w.handovers steps = [some 6, some 5, some 4, some 4] ∧
      (o.2.member 0).frames = [3] ∧ o.2.saved.get? 0 = some ⟨2, [1]⟩ := by
  intro w P steps o
  rcases transparent P w 0 with ⟨-, hands, members, -, saved, -⟩
  have hframes : (o.2.member 0).frames = (w.member 0).frames :=
    congrArg Context.frames (members 0)
  exact ⟨hands, hframes.trans (by decide +kernel), (saved 0).trans (by decide +kernel)⟩

end Program

end ExecContext
