import ExecContext.Branch

/-!
# Lineages of branches

A branch that is copied lives on in all its copies and their copies; what every step keeps
is passed on to all of them.  Told backwards, a branch comes from the first one by the steps
that were taken on it, after those that were taken on its ancestors before they were copied.

Main results:

- Theorem `Branches.Descends.passes_on`: what steps keep is passed on to descendants.
- Theorem `Branches.descends_self`: a branch is its own descendant.
- Theorem `Branches.answer_step_other`: a step on one branch changes no answer of another.
- Theorem `Branches.exists_lineage`: every branch comes from the first one by its lineage.
-/

namespace ExecContext

namespace Branches

variable {σ ι α : Type} {act : σ → ι → Outcome σ α}

/-! ## Steps -/

/-- A step on one branch changes no answer of another. -/
theorem answer_step_other (bs : Branches σ) {c other : Nat} (h : other ≠ c) (i j : ι) :
    ((bs.step act (.on c i)).state.step act (.on other j)).answer =
      (bs.step act (.on other j)).answer := by
  have hstate := getElem?_step_other act bs i h
  cases hother : bs.states[other]? with
  | none => rw [step_on_absent (hstate.trans hother), step_on_absent hother]
  | some s => rw [step_on (hstate.trans hother), step_on hother, Outcome.answer_map,
      Outcome.answer_map]

/-- A step takes a branch on as it is, or takes its own step on it. -/
theorem getElem?_step {bs : Branches σ} {c : Nat} {s : σ} (hc : bs.states[c]? = some s)
    (i : BranchStep ι) :
    (bs.step act i).state.states[c]? = some s ∨
      ∃ j, (bs.step act i).state.states[c]? = some (act s j).state := by
  have hlt : c < bs.states.length := (List.getElem?_eq_some_iff.mp hc).1
  cases i with
  | on branch j =>
    by_cases hbranch : c = branch
    · subst hbranch
      refine .inr ⟨j, ?_⟩
      rw [step_on hc]
      exact List.getElem?_set_self hlt
    · exact .inl ((getElem?_step_other act bs j hbranch).trans hc)
  | fork branch =>
    cases hb : bs.states[branch]? with
    | none => exact .inl (by rw [step_fork_absent hb, hc])
    | some u => exact .inl (by rw [states_fork act bs hb, List.getElem?_append_left hlt, hc])

/-! ## Descendants -/

/-- Over the steps of a list a branch lives on as itself, or as a copy that was taken of it
meanwhile, directly or through further copies. -/
inductive Descends (act : σ → ι → Outcome σ α) :
    Branches σ → List (BranchStep ι) → Nat → Nat → Prop
  /-- The branch itself, with no step left. -/
  | here {bs : Branches σ} {c : Nat} (present : c < bs.states.length) :
      Descends act bs [] c c
  /-- A descendant after the first step. -/
  | kept {bs : Branches σ} {i : BranchStep ι} {is : List (BranchStep ι)} {c d : Nat}
      (present : c < bs.states.length) (rest : Descends act (bs.step act i).state is c d) :
      Descends act bs (i :: is) c d
  /-- A descendant of the copy that the first step takes. -/
  | copied {bs : Branches σ} {is : List (BranchStep ι)} {c d : Nat}
      (present : c < bs.states.length)
      (rest : Descends act (bs.step act (.fork c)).state is bs.states.length d) :
      Descends act bs (.fork c :: is) c d

/-- What every step keeps holds of a branch after a step on the family. -/
theorem exists_step {P : σ → Prop} (keeps : ∀ s i, P s → P (act s i).state) {bs : Branches σ}
    {c : Nat} {s : σ} (hc : bs.states[c]? = some s) (hs : P s) (i : BranchStep ι) :
    ∃ u, (bs.step act i).state.states[c]? = some u ∧ P u := by
  rcases getElem?_step hc i with hsame | ⟨j, hstep⟩
  · exact ⟨s, hsame, hs⟩
  · exact ⟨_, hstep, keeps s j hs⟩

/-- What every step keeps is passed on from a branch to all its descendants. -/
theorem Descends.passes_on {P : σ → Prop} (keeps : ∀ s i, P s → P (act s i).state)
    {bs : Branches σ} {is : List (BranchStep ι)} {c d : Nat} (h : Descends act bs is c d) {s : σ}
    (hc : bs.states[c]? = some s) (hs : P s) :
    ∃ u, (run (step act) bs is).2.states[d]? = some u ∧ P u := by
  induction h generalizing s with
  | here => exact ⟨s, hc, hs⟩
  | @kept bs i is c d _ _ ih =>
    rcases exists_step keeps hc hs i with ⟨u, hu, hP⟩
    exact ih hu hP
  | @copied bs is c d _ _ ih =>
    have hcopy : (bs.step act (.fork c)).state.states[bs.states.length]? = some s := by
      rw [states_fork act bs hc]
      exact List.getElem?_concat_length
    exact ih hcopy hs

/-- A branch is its own descendant over any steps. -/
theorem descends_self {bs : Branches σ} {c : Nat} (hc : c < bs.states.length)
    (is : List (BranchStep ι)) : Descends act bs is c c := by
  induction is generalizing bs with
  | nil => exact .here hc
  | cons i is ih =>
    have hstate : bs.states[c]? = some bs.states[c] := List.getElem?_eq_getElem hc
    have hnext : ∃ u, (bs.step act i).state.states[c]? = some u ∧ True :=
      exists_step (fun _ _ h => h) hstate trivial i
    rcases hnext with ⟨u, hu, -⟩
    exact .kept hc (ih (List.getElem?_eq_some_iff.mp hu).1)

/-! ## Lineages -/

/-- The steps of a run with their answers. -/
def transcript (act : σ → ι → Outcome σ α) (bs : Branches σ) (is : List (BranchStep ι)) :
    List (BranchStep ι × BranchAnswer α) :=
  is.zip ((run (step act) bs is).1.map Reply.answer)

/-- The lineages of all branches after one more step: the step goes to the lineage of its
branch, and a copy begins with the lineage of the branch that was copied. -/
def extendLineages (ls : List (List (ι × α))) :
    BranchStep ι × BranchAnswer α → List (List (ι × α))
  | (.on branch i, .answered a) => ls.modify branch fun l => l ++ [(i, a)]
  | (.fork branch, .forked _) => ls ++ ls[branch]?.toList
  | _ => ls

/-- For every branch of a family that began with one, the steps with their answers that were
taken on it, after those that were taken on its ancestors before they were copied. -/
def lineages (steps : List (BranchStep ι × BranchAnswer α)) : List (List (ι × α)) :=
  steps.foldl extendLineages [[]]

/-- A state comes from another by the steps of a list, which are answered as the list says. -/
inductive Comes (act : σ → ι → Outcome σ α) (first : σ) : List (ι × α) → σ → Prop
  | start : Comes act first [] first
  | step {l : List (ι × α)} {s : σ} (h : Comes act first l s) (i : ι) :
      Comes act first (l ++ [(i, (act s i).answer)]) (act s i).state

/-- Every branch has a lineage, by which it comes from the first state. -/
structure Told (act : σ → ι → Outcome σ α) (first : σ) (bs : Branches σ)
    (ls : List (List (ι × α))) : Prop where
  length_eq : ls.length = bs.states.length
  comes : ∀ (d : Nat) (l : List (ι × α)) (s : σ), ls[d]? = some l → bs.states[d]? = some s →
    Comes act first l s

theorem told_single (first : σ) : Told act first (single first) [[]] where
  length_eq := rfl
  comes d l s hl hs := by
    cases d with
    | zero =>
      cases hl
      cases hs
      exact .start
    | succ d => cases hl

/-- A step on a branch goes to its lineage. -/
theorem Told.on {first : σ} {bs : Branches σ} {ls : List (List (ι × α))}
    (h : Told act first bs ls) {branch : Nat} {s : σ} (hs : bs.states[branch]? = some s) (i : ι) :
    Told act first ⟨bs.states.set branch (act s i).state⟩
      (ls.modify branch fun l => l ++ [(i, (act s i).answer)]) where
  length_eq := by rw [List.length_modify, List.length_set, h.length_eq]
  comes d l u hl hu := by
    rw [List.getElem?_modify] at hl
    rcases Option.map_eq_some_iff.mp hl with ⟨l', hl', rfl⟩
    by_cases hd : branch = d
    · subst hd
      have hlt : branch < bs.states.length := (List.getElem?_eq_some_iff.mp hs).1
      rw [List.getElem?_set_self hlt] at hu
      cases hu
      rw [if_pos rfl]
      exact .step (h.comes branch l' s hl' hs) i
    · rw [List.getElem?_set_ne hd] at hu
      rw [if_neg hd]
      exact h.comes d l' u hl' hu

/-- A copy begins with the lineage of the branch that was copied. -/
theorem Told.fork {first : σ} {bs : Branches σ} {ls : List (List (ι × α))}
    (h : Told act first bs ls) {branch : Nat} {s : σ} (hs : bs.states[branch]? = some s) :
    Told act first ⟨bs.states ++ [s]⟩ (ls ++ ls[branch]?.toList) := by
  have hlt : branch < ls.length := by
    rw [h.length_eq]
    exact (List.getElem?_eq_some_iff.mp hs).1
  have hlineage : ls[branch]? = some ls[branch] := List.getElem?_eq_getElem hlt
  rw [hlineage, Option.toList_some]
  constructor
  · rw [List.length_append, List.length_append, h.length_eq]
    rfl
  · intro d l u hl hu
    rcases Nat.lt_trichotomy d ls.length with hd | rfl | hd
    · rw [List.getElem?_append_left hd] at hl
      rw [List.getElem?_append_left (h.length_eq ▸ hd)] at hu
      exact h.comes d l u hl hu
    · rw [List.getElem?_concat_length] at hl
      rw [h.length_eq, List.getElem?_concat_length] at hu
      cases hl
      cases hu
      exact h.comes branch _ s hlineage hs
    · have hnone : (ls ++ [ls[branch]])[d]? = none := by
        rw [List.getElem?_eq_none_iff, List.length_append, List.length_singleton]
        omega
      rw [hnone] at hl
      cases hl

/-- After one more step the branches are told by their lineages with that step. -/
theorem Told.step {first : σ} {bs : Branches σ} {ls : List (List (ι × α))}
    (h : Told act first bs ls) (i : BranchStep ι) :
    Told act first (bs.step act i).state (extendLineages ls (i, (bs.step act i).answer)) := by
  cases i with
  | on branch i =>
    cases hb : bs.states[branch]? with
    | none =>
      rw [step_on_absent hb]
      exact h
    | some s =>
      rw [step_on hb]
      exact h.on hb i
  | fork branch =>
    cases hb : bs.states[branch]? with
    | none =>
      rw [step_fork_absent hb]
      exact h
    | some s =>
      rw [step_fork hb]
      exact h.fork hb

/-- After a run the branches are told by their lineages with its steps. -/
theorem Told.after {first : σ} {bs : Branches σ} {ls : List (List (ι × α))}
    (h : Told act first bs ls) (is : List (BranchStep ι)) :
    Told act first (run (Branches.step act) bs is).2
      ((transcript act bs is).foldl extendLineages ls) := by
  induction is generalizing bs ls with
  | nil => exact h
  | cons i is ih => exact ih (h.step i)

/-- Every branch of a family that began with one comes from that one by its lineage. -/
theorem exists_lineage (first : σ) (is : List (BranchStep ι)) {d : Nat} {s : σ}
    (hs : (run (step act) (single first) is).2.states[d]? = some s) :
    ∃ l, (lineages (transcript act (single first) is))[d]? = some l ∧ Comes act first l s := by
  have hstart : Told act first (single first) [[]] := told_single first
  have htold := hstart.after is
  have hlt : d < (lineages (transcript act (single first) is)).length := by
    rw [lineages, htold.length_eq]
    exact (List.getElem?_eq_some_iff.mp hs).1
  have hl := List.getElem?_eq_getElem hlt
  exact ⟨_, hl, htold.comes d _ s hl hs⟩

end Branches

end ExecContext
