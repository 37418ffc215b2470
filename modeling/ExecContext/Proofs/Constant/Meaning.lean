import ExecContext.Constant.Step
import ExecContext.Proofs.ByteString.Case
import ExecContext.Table.Lemmas

/-!
# What the names of constants mean

A name means what the keyword means that it spells, else what is stored under it.  A
declaration is settled by that meaning, and gives one to its own name at most, and only
where there was none.  So a meaning once given is never taken back, and after a run a name
that meant nothing means what was declared for it first.

Main results:

- Theorem `Keyword.parse_eq_some_iff`: the keyword that a name spells.
- Theorem `ConstantTable.declare_eq`: how a declaration ends.
- Theorem `ConstantTable.step_cases`: what a step can do.
- Theorems `ConstantTable.resolve_step` and `ConstantTable.resolve_run`: what names mean
  after a step and after a run.
- Theorem `ConstantTable.size_step`: the size counts the declarations that succeed.
-/

namespace ExecContext

/-! ## Keywords -/

namespace Keyword

/-- No two keywords are spelled alike up to case. -/
theorem eq_of_lower_spelling_eq {k l : Keyword} (h : k.spelling.lower = l.spelling.lower) :
    k = l := by
  cases k <;> cases l <;> first | rfl | exact absurd h (by decide)

theorem equalsIgnoringCase_of_parse_eq_some {name : ByteString} {k : Keyword}
    (h : parse name = some k) : name.equalsIgnoringCase k.spelling = Bool.true :=
  List.find?_some (p := fun k : Keyword => name.equalsIgnoringCase k.spelling) h

/-- A name means a keyword exactly if it spells it in some case. -/
theorem parse_eq_some_iff (name : ByteString) (k : Keyword) :
    parse name = some k ↔ name.equalsIgnoringCase k.spelling = Bool.true := by
  refine ⟨equalsIgnoringCase_of_parse_eq_some, fun h => ?_⟩
  have hsome : (parse name).isSome = Bool.true := by
    rw [parse, List.find?_isSome]
    exact ⟨k, by cases k <;> simp, h⟩
  rcases Option.isSome_iff_exists.mp hsome with ⟨l, hl⟩
  have hspelled := equalsIgnoringCase_of_parse_eq_some hl
  rw [← ByteString.lower_eq_lower_iff] at h hspelled
  rw [hl, eq_of_lower_spelling_eq (hspelled.symm.trans h)]

/-- A name means no keyword exactly if it spells none. -/
theorem parse_eq_none_iff (name : ByteString) :
    parse name = none ↔ ∀ k : Keyword, name.equalsIgnoringCase k.spelling = Bool.false := by
  rw [Option.eq_none_iff_forall_ne_some]
  simp only [ne_eq, parse_eq_some_iff, Bool.not_eq_true]

end Keyword

/-- The name and the value that a step declares. -/
def ConstantStep.declaration? : ConstantStep → Option (ByteString × Value)
  | .declare name v => some (name, v)
  | .resolve _ | .isDefined _ => none

namespace ConstantTable

variable {name : ByteString}

/-! ## Meaning -/

theorem resolve_of_keyword {k : Keyword} (t : ConstantTable) (hk : Keyword.parse name = some k) :
    t.resolve name = some k.value := by
  simp only [resolve, hk]

theorem resolve_of_not_keyword (t : ConstantTable) (hk : Keyword.parse name = none) :
    t.resolve name = t.stored.get? name := by
  simp only [resolve, hk]

/-- A name that means nothing spells no keyword. -/
theorem parse_of_resolve_eq_none {t : ConstantTable} (h : t.resolve name = none) :
    Keyword.parse name = none := by
  cases hk : Keyword.parse name with
  | none => rfl
  | some k =>
    rw [resolve_of_keyword t hk] at h
    cases h

/-- A name is defined exactly if it means something. -/
theorem isDefined_eq_isSome_resolve (t : ConstantTable) (name : ByteString) :
    t.isDefined name = (t.resolve name).isSome := by
  cases hk : Keyword.parse name with
  | some k => simp [isDefined, hk, resolve_of_keyword t hk]
  | none => simp [isDefined, hk, resolve_of_not_keyword t hk, Table.contains]

/-- How a declaration ends: a keyword is refused as reserved, whatever is stored under it;
another name that means something is refused as redefined. -/
theorem declare_eq (t : ConstantTable) (name : ByteString) (v : Value) :
    t.declare name v =
      if (Keyword.parse name).isSome then .error (.reserved name.display)
      else if (t.resolve name).isSome then .error (.redefined name.display)
      else .ok ⟨t.stored.insert name v⟩ := by
  cases hk : Keyword.parse name with
  | some k => simp [declare, hk]
  | none =>
    cases hg : t.stored.get? name <;>
      simp [declare, hk, resolve_of_not_keyword t hk, Table.contains, hg]

/-! ## Steps -/

/-- A step leaves the table as it is and declares nothing for a name without a meaning, or it
stores a value under such a name. -/
theorem step_cases (t : ConstantTable) (i : ConstantStep) :
    ((t.step i).state = t ∧ (t.step i).answer ≠ .declared ∧
      ∀ name v, i.declaration? = some (name, v) → (t.resolve name).isSome = true) ∨
    ∃ name v, i = .declare name v ∧ t.resolve name = none ∧
      t.step i = { answer := .declared, state := ⟨t.stored.insert name v⟩ } := by
  cases i with
  | resolve name | isDefined name =>
    refine .inl ⟨rfl, by simp [step], ?_⟩
    intro other w h
    cases h
  | declare name v =>
    cases hr : t.resolve name with
    | some w =>
      have herror : ∃ e, t.declare name v = .error e := by
        rw [declare_eq, hr]
        split <;> exact ⟨_, rfl⟩
      rcases herror with ⟨e, he⟩
      refine .inl ⟨by simp [step, he], by simp [step, he], fun other w' h => ?_⟩
      cases h
      rw [hr]
      rfl
    | none =>
      have hok : t.declare name v = .ok ⟨t.stored.insert name v⟩ := by
        simp [declare_eq, parse_of_resolve_eq_none hr, hr]
      exact .inr ⟨name, v, rfl, hr, by simp [step, hok]⟩

/-- Storing a value under a name that meant nothing gives it that meaning, and leaves all other
names theirs. -/
theorem resolve_insert (t : ConstantTable) {name : ByteString} (v : Value) (other : ByteString)
    (hnew : t.resolve name = none) :
    (ConstantTable.mk (t.stored.insert name v)).resolve other =
      if other = name then some v else t.resolve other := by
  cases hk : Keyword.parse other with
  | some k =>
    have hne : other ≠ name := by
      rintro rfl
      rw [parse_of_resolve_eq_none hnew] at hk
      cases hk
    rw [if_neg hne, resolve_of_keyword _ hk, resolve_of_keyword t hk]
  | none =>
    rw [resolve_of_not_keyword _ hk, resolve_of_not_keyword t hk, Table.get?_insert]

theorem lookup_declaration (name : ByteString) (v : Value) (other : ByteString) :
    ((ConstantStep.declare name v).declaration?.toList).lookup other =
      if other = name then some v else none := by
  by_cases h : other = name
  · simp [ConstantStep.declaration?, h]
  · have hne : (other == name) = false := beq_false_of_ne h
    simp [ConstantStep.declaration?, List.lookup_cons, h, hne]

/-- After a step a name means what it meant, or if that was nothing, what the step declares for
it. -/
theorem resolve_step (t : ConstantTable) (i : ConstantStep) (other : ByteString) :
    (t.step i).state.resolve other =
      (t.resolve other).or (i.declaration?.toList.lookup other) := by
  rcases step_cases t i with ⟨hstate, -, hmeant⟩ | ⟨name, v, rfl, hnew, hstep⟩
  · rw [hstate]
    cases i with
    | resolve name | isDefined name => exact Option.or_none.symm
    | declare name v =>
      rw [lookup_declaration]
      split
      · rename_i hother
        rw [hother, Option.or_of_isSome (hmeant name v rfl)]
      · exact Option.or_none.symm
  · rw [hstep, resolve_insert t v other hnew, lookup_declaration]
    split
    · rename_i hother
      rw [hother, hnew, Option.none_or]
    · exact Option.or_none.symm

/-- After a run a name means what it meant, or if that was nothing, what was declared for it
first. -/
theorem resolve_run (t : ConstantTable) (is : List ConstantStep) (other : ByteString) :
    (run step t is).2.resolve other =
      (t.resolve other).or ((is.filterMap ConstantStep.declaration?).lookup other) := by
  induction is generalizing t with
  | nil => simp
  | cons i is ih =>
    have happend : (i :: is).filterMap ConstantStep.declaration? =
        i.declaration?.toList ++ is.filterMap ConstantStep.declaration? := by
      cases hd : i.declaration? <;> simp [hd]
    rw [run_cons, ih, resolve_step, happend, List.lookup_append, Option.or_assoc]

/-- A meaning is never taken back. -/
theorem resolve_step_of_eq_some {t : ConstantTable} {v : Value} (h : t.resolve name = some v)
    (i : ConstantStep) : (t.step i).state.resolve name = some v := by
  rw [resolve_step, h, Option.some_or]

/-- A step adds to the size if it declares a constant. -/
theorem size_step (t : ConstantTable) (i : ConstantStep) :
    (t.step i).state.size = t.size + if (t.step i).answer = .declared then 1 else 0 := by
  rcases step_cases t i with ⟨hstate, hanswer, -⟩ | ⟨name, v, rfl, hnew, hstep⟩
  · rw [hstate, if_neg hanswer]
    rfl
  · have hget : t.stored.get? name = none := by
      rw [← resolve_of_not_keyword t (parse_of_resolve_eq_none hnew), hnew]
    rw [hstep, if_pos rfl]
    exact Table.size_insert_of_get?_eq_none v hget

end ConstantTable

end ExecContext
