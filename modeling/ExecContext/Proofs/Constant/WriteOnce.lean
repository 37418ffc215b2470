import ExecContext.Proofs.Branch.Lineage
import ExecContext.Proofs.Constant.Meaning

/-!
# Constants are written once

A name that means something keeps its meaning in its table and in all copies that are taken
of it.  Copies go their own ways: they may give a meaning of their own only to a name that
had none when they parted.  A table counts what was declared in it, and in its ancestors
before they were copied.

Main results:

- Theorem `ConstantTable.size_of_comes`: the size counts the declarations of the lineage.
- Theorem `ConstantTable.written_once`: the same along all branches of one empty table.
-/

namespace ExecContext

namespace ConstantTable

/-- A meaning is passed on to all descendants of a table. -/
theorem resolve_of_descends {bs : Branches ConstantTable} {is : List (BranchStep ConstantStep)}
    {c d : Nat} (h : bs.Descends observedStep is c d) {t : ConstantTable} {name : ByteString}
    {v : Value} (hc : bs.states[c]? = some t) (ht : t.resolve name = some v) :
    ∃ u, (run (Branches.step observedStep) bs is).2.states[d]? = some u ∧
      u.resolve name = some v :=
  h.passes_on (fun _ i hu => resolve_step_of_eq_some hu i) hc ht

/-- Descendants that give a name different meanings come from a table that gives it none. -/
theorem resolve_eq_none_of_descends {bs : Branches ConstantTable}
    {is : List (BranchStep ConstantStep)} {c d e : Nat} (hd : bs.Descends observedStep is c d)
    (he : bs.Descends observedStep is c e) {t u w : ConstantTable} {name : ByteString}
    (hc : bs.states[c]? = some t)
    (hu : (run (Branches.step observedStep) bs is).2.states[d]? = some u)
    (hw : (run (Branches.step observedStep) bs is).2.states[e]? = some w)
    (hne : u.resolve name ≠ w.resolve name) : t.resolve name = none := by
  cases ht : t.resolve name with
  | none => rfl
  | some v =>
    rcases resolve_of_descends hd hc ht with ⟨u', hu', huv⟩
    rcases resolve_of_descends he hc ht with ⟨w', hw', hwv⟩
    rw [hu] at hu'
    rw [hw] at hw'
    cases hu'
    cases hw'
    rw [huv, hwv] at hne
    contradiction

/-- A table has grown by the declarations of its lineage. -/
theorem size_of_comes {t u : ConstantTable} {l : List (ConstantStep × Observed ConstantAnswer)}
    (h : Branches.Comes observedStep t l u) :
    u.size = t.size + l.countP fun e => e.2.result = .declared := by
  induction h with
  | start => rfl
  | @step l u _ i ih =>
    have hsize : (u.observedStep i).state.size =
        u.size + if (u.observedStep i).answer.result = .declared then 1 else 0 := size_step u i
    rw [hsize, ih, List.countP_append, List.countP_singleton, Nat.add_assoc]
    simp

/-- Along the branches of one empty table constants are written once.  A name that means
something keeps its meaning over any further steps, in its table and in every copy that
descends from it; a step on one table changes no answer of another, so that only a name
without a meaning can come to mean different things in two descendants; and a table has as
many constants as were declared in its lineage. -/
theorem written_once (before after : List (BranchStep ConstantStep)) :
    let bs := (run (Branches.step observedStep) (Branches.single .empty) before).2
    let bs' := (run (Branches.step observedStep) bs after).2
    (∀ (c : Nat) (t : ConstantTable), bs.states[c]? = some t →
      bs.Descends observedStep after c c ∧
      ∀ d, bs.Descends observedStep after c d → ∀ name v, t.resolve name = some v →
        ∃ u, bs'.states[d]? = some u ∧ u.resolve name = some v) ∧
    (∀ (c other : Nat) (i j : ConstantStep), other ≠ c →
      ((bs.step observedStep (.on c i)).state.step observedStep (.on other j)).answer =
        (bs.step observedStep (.on other j)).answer) ∧
    (∀ (c d e : Nat) (t u w : ConstantTable) (name : ByteString), bs.states[c]? = some t →
      bs.Descends observedStep after c d → bs'.states[d]? = some u →
      bs.Descends observedStep after c e → bs'.states[e]? = some w →
      u.resolve name ≠ w.resolve name → t.resolve name = none) ∧
    ∀ (c : Nat) (t : ConstantTable), bs.states[c]? = some t →
      ∃ lineage, (Branches.lineages
          (Branches.transcript observedStep (Branches.single .empty) before))[c]? = some lineage ∧
        t.size = lineage.countP fun e => e.2.result = .declared := by
  intro bs bs'
  refine ⟨?_, ?_, ?_, ?_⟩
  · intro c t hc
    have hlt : c < bs.states.length := (List.getElem?_eq_some_iff.mp hc).1
    exact ⟨Branches.descends_self hlt after, fun d hd name v ht => resolve_of_descends hd hc ht⟩
  · intro c other i j hother
    exact Branches.answer_step_other bs hother i j
  · intro c d e t u w name hc hd hu he hw hne
    exact resolve_eq_none_of_descends hd he hc hu hw hne
  · intro c t hc
    rcases Branches.exists_lineage ConstantTable.empty before hc with ⟨lineage, hlineage, hcomes⟩
    refine ⟨lineage, hlineage, ?_⟩
    rw [size_of_comes hcomes]
    exact Nat.zero_add _

/-- A copy keeps what was declared before it was taken; what it and the original then declare
differently meant nothing before; and it counts the declarations on both sides of the copying
that went to it. -/
theorem written_once_in_copy :
    let before : List (BranchStep ConstantStep) := [.on 0 (.declare [65] (.int 1))]
    let after : List (BranchStep ConstantStep) :=
      [.fork 0, .on 1 (.declare [66] (.int 2)), .on 0 (.declare [66] (.int 3)),
        .on 1 (.declare [65] (.int 4))]
    let bs := (run (Branches.step observedStep) (Branches.single .empty) before).2
    let bs' := (run (Branches.step observedStep) bs after).2
    (∃ u, bs'.states[1]? = some u ∧ u.resolve [65] = some (.int 1)) ∧
      ∃ t u w : ConstantTable, bs.states[0]? = some t ∧ bs'.states[0]? = some u ∧
        bs'.states[1]? = some w ∧ u.resolve [66] ≠ w.resolve [66] ∧ t.resolve [66] = none ∧
        w.size = 2 := by
  intro before after bs bs'
  have hbranches := written_once before after
  have ht : bs.states[0]? = some ⟨Table.empty.insert [65] (.int 1)⟩ := rfl
  have hu : bs'.states[0]? =
      some ⟨(Table.empty.insert [65] (.int 1)).insert [66] (.int 3)⟩ := rfl
  have hw : bs'.states[1]? =
      some ⟨(Table.empty.insert [65] (.int 1)).insert [66] (.int 2)⟩ := rfl
  have hself : bs.Descends observedStep after 0 0 := (hbranches.1 0 _ ht).1
  have hcopy : bs.Descends observedStep after 0 1 :=
    .copied (by decide) (Branches.descends_self (by decide) _)
  have hne : ConstantTable.resolve ⟨(Table.empty.insert [65] (.int 1)).insert [66] (.int 3)⟩ [66] ≠
      ConstantTable.resolve ⟨(Table.empty.insert [65] (.int 1)).insert [66] (.int 2)⟩ [66] := by
    decide
  refine ⟨(hbranches.1 0 _ ht).2 1 hcopy [65] (.int 1) rfl, _, _, _, ht, hu, hw, hne, ?_, ?_⟩
  · exact hbranches.2.2.1 0 0 1 _ _ _ [66] ht hself hu hcopy hw hne
  · rcases (written_once (before ++ after) []).2.2.2 1 _ hw with ⟨lineage, hlineage, hsize⟩
    cases hlineage
    exact hsize

end ConstantTable

end ExecContext
