import ExecContext.Proofs.Symbol.History

/-!
# Constructors of classes

A class shares the body of its constructor with a function.  Which body that is, the steps tell:
the class that was declared last under a spelling of the name brought one or none, and every step
since that set the constructor put another in its place.  The function of the body's name is told
by its own declarations.  Bodies are told apart by what they are, not by their names.

Main results:

- Theorem `ClassDecl.constructorBody_run`: which constructor steps leave a class with.
- Theorem `Registry.constructorBody_run_iff`: which constructor a run leaves in force.
- Theorems `Registry.runsConstructor_run_eq_some_iff` and
  `Registry.runsConstructor_run_eq_none_iff`: whether the function of the constructor's name runs
  the constructor.
- Theorem `Registry.runsConstructor_run_declareFunction`: what becomes of the answer when the
  function is declared again.
- Theorem `SymbolStep.BodiesApart.eq_of_id_eq`: bodies found are told apart by their identities.
-/

namespace ExecContext

variable {φ : Type}

/-! ## What steps set -/

/-- The constructor body that a step sets, where to clear it is to set none. -/
def ClassStep.setsConstructor? : ClassStep φ → Option (Option (Shared Body))
  | .setConstructor body => some body
  | _ => none

namespace ClassDecl

variable [FilterRule φ]

theorem constructorBody_step (c : ClassDecl φ) (i : ClassStep φ) :
    (c.step i).state.constructorBody = i.setsConstructor?.getD c.constructorBody := by
  cases i <;> rfl

/-- Steps leave a class with the constructor that was set last, else with its own. -/
theorem constructorBody_run (c : ClassDecl φ) (is : List (ClassStep φ)) :
    (run step c is).2.constructorBody =
      (is.filterMap ClassStep.setsConstructor?).getLast?.getD c.constructorBody := by
  induction is generalizing c with
  | nil => rfl
  | cons i is ih =>
    rw [run_cons, ih, constructorBody_step]
    cases hi : i.setsConstructor? with
    | none => rw [List.filterMap_cons_none hi, Option.getD_none]
    | some body =>
      rw [List.filterMap_cons_some hi, List.getLast?_cons, Option.getD_some, Option.getD_some]

end ClassDecl

namespace SymbolStep

/-- The constructor body that a step sets in the class of the name, under any spelling. -/
def setsConstructor? (name : ByteString) (i : SymbolStep φ) : Option (Option (Shared Body)) :=
  (classStep? name i).bind ClassStep.setsConstructor?

/-- Steps leave this constructor body in force for the class of the name, or `none`: the class
that was declared last under a spelling of the name has it, if no step on that class since has set
its constructor, and else the last of these steps has set it. -/
def LeavesInForce (name : ByteString) (is : List (SymbolStep φ)) (body : Option (Shared Body)) :
    Prop :=
  ∃ c later, WrittenLast (classUnder? name) is c later ∧
    body = (later.filterMap (setsConstructor? name)).getLast?.getD c.constructorBody

/-- Further steps that neither declare the class nor set its constructor keep it in force. -/
theorem LeavesInForce.append {name : ByteString} {is more : List (SymbolStep φ)}
    {body : Option (Shared Body)} (h : LeavesInForce name is body)
    (hclass : ∀ i ∈ more, classUnder? name i = none)
    (hsets : ∀ i ∈ more, setsConstructor? name i = none) :
    LeavesInForce name (is ++ more) body := by
  rcases h with ⟨c, later, hlast, rfl⟩
  have hnone : more.filterMap (setsConstructor? name) = [] :=
    List.filterMap_eq_nil_iff.mpr hsets
  refine ⟨c, later ++ more, hlast.append hclass, ?_⟩
  rw [List.filterMap_append, hnone, List.append_nil]

/-- A step keeps the constructor of a class and the function of a name if it declares neither anew
and does not set the constructor. -/
structure Spares (name key : ByteString) (i : SymbolStep φ) : Prop where
  classKept : classUnder? name i = none
  constructorKept : setsConstructor? name i = none
  functionKept : functionUnder? key i = none

/-! ## Bodies that are handed in -/

/-- The bodies that a step hands in. -/
def bodies : SymbolStep φ → List (Shared Body)
  | .declareFunction f => [f.val.body]
  | .declareClass c => c.constructorBody.toList
  | .updateClass _ (.setConstructor body) => body.toList
  | _ => []

/-- Of the bodies that steps hand in no two have one identity. -/
def BodiesApart (is : List (SymbolStep φ)) : Prop :=
  ∀ x ∈ is.flatMap bodies, ∀ y ∈ is.flatMap bodies, x.id = y.id → x = y

/-- The constructor that a class is declared with is handed in. -/
theorem mem_bodies_of_classUnder? {name : ByteString} {i : SymbolStep φ} {c : ClassDecl φ}
    {body : Shared Body} (h : classUnder? name i = some c) (hbody : c.constructorBody = some body) :
    body ∈ i.bodies := by
  cases i with
  | declareClass d =>
    simp only [classUnder?, Option.ite_none_right_eq_some, Option.some.injEq] at h
    simp [bodies, h.2, hbody]
  | _ => cases h

/-- So is one that is set. -/
theorem mem_bodies_of_setsConstructor? {name : ByteString} {i : SymbolStep φ} {body : Shared Body}
    (h : setsConstructor? name i = some (some body)) : body ∈ i.bodies := by
  cases i with
  | updateClass spelling s =>
    rcases Option.bind_eq_some_iff.mp h with ⟨s', hs', hsets⟩
    simp only [classStep?, Option.ite_none_right_eq_some, Option.some.injEq] at hs'
    rw [← hs'.2] at hsets
    cases s with
    | setConstructor set =>
      cases Option.some.inj hsets
      simp [bodies]
    | _ => cases hsets
  | _ => cases h

/-- And so is the body of a function. -/
theorem mem_bodies_of_functionUnder? {name : ByteString} {i : SymbolStep φ}
    {f : Shared FunctionDecl} (h : functionUnder? name i = some f) : f.val.body ∈ i.bodies := by
  cases i with
  | declareFunction g =>
    simp only [functionUnder?, Option.ite_none_right_eq_some, Option.some.injEq] at h
    simp [bodies, h.2]
  | _ => cases h

/-- A constructor in force was handed in. -/
theorem LeavesInForce.mem_bodies {name : ByteString} {is : List (SymbolStep φ)}
    {body : Shared Body} (h : LeavesInForce name is (some body)) : body ∈ is.flatMap bodies := by
  rcases h with ⟨c, later, hlast, hbody⟩
  rw [List.mem_flatMap]
  cases hsets : (later.filterMap (setsConstructor? name)).getLast? with
  | none =>
    rw [hsets, Option.getD_none] at hbody
    rcases hlast.exists_mem with ⟨i, hi, hc⟩
    exact ⟨i, hi, mem_bodies_of_classUnder? hc hbody.symm⟩
  | some set =>
    rw [hsets, Option.getD_some] at hbody
    rcases List.mem_filterMap.mp (List.mem_of_getLast? hsets) with ⟨i, hi, hset⟩
    rw [← hbody] at hset
    rcases hlast with ⟨earlier, j, rfl, -, -⟩
    exact ⟨i, by simp [hi], mem_bodies_of_setsConstructor? hset⟩

/-- Where bodies are apart, one and the same body is what a constructor in force shares with the
function that was declared last if their identities are equal. -/
theorem BodiesApart.eq_of_id_eq {name key : ByteString} {is later : List (SymbolStep φ)}
    {body : Shared Body} {f : Shared FunctionDecl} (apart : BodiesApart is)
    (hbody : LeavesInForce name is (some body)) (hf : WrittenLast (functionUnder? key) is f later)
    (hid : f.val.body.id = body.id) : f.val.body = body := by
  rcases hf.exists_mem with ⟨i, hi, hwrites⟩
  have hmem : f.val.body ∈ is.flatMap bodies :=
    List.mem_flatMap.mpr ⟨i, hi, mem_bodies_of_functionUnder? hwrites⟩
  exact apart _ hmem _ hbody.mem_bodies hid

end SymbolStep

/-! ## What a registry finds -/

namespace Registry

open SymbolStep

/-- There is an answer where a class, its constructor and a function of the body's name are
found, and it is whether the function's body is the same. -/
theorem runsConstructor_eq_some_iff (r : Registry φ) (name : ByteString) (b : Bool) :
    r.runsConstructor name = some b ↔
      ∃ body f, (r.lookupClass name).map ClassDecl.constructorBody = some (some body) ∧
        r.lookupFunction body.val.name = some f ∧ f.val.body.same body = b := by
  unfold runsConstructor
  cases hc : r.lookupClass name with
  | none => simp
  | some c => cases hbody : c.constructorBody <;> simp [hbody]

/-- There is none where one of them is missing. -/
theorem runsConstructor_eq_none_iff (r : Registry φ) (name : ByteString) :
    r.runsConstructor name = none ↔ r.lookupClass name = none ∨
      (r.lookupClass name).map ClassDecl.constructorBody = some none ∨
      ∃ body, (r.lookupClass name).map ClassDecl.constructorBody = some (some body) ∧
        r.lookupFunction body.val.name = none := by
  unfold runsConstructor
  cases hc : r.lookupClass name with
  | none => simp
  | some c => cases hbody : c.constructorBody <;> simp [hbody]

variable [FilterRule φ]

/-- The class that a name finds after a run of the empty registry has the constructor that the run
leaves in force. -/
theorem constructorBody_run_iff (is : List (SymbolStep φ)) (name : ByteString)
    (body : Option (Shared Body)) :
    ((run symbolStep empty is).2.lookupClass name).map ClassDecl.constructorBody = some body ↔
      LeavesInForce name is body := by
  have hset : ∀ later : List (SymbolStep φ),
      (later.filterMap (classStep? name)).filterMap ClassStep.setsConstructor? =
        later.filterMap (setsConstructor? name) := by
    intro later
    rw [List.filterMap_filterMap]
    rfl
  rw [Option.map_eq_some_iff]
  constructor
  · rintro ⟨c, hc, rfl⟩
    rcases (lookupClass_run_eq_some_iff is name c).mp hc with ⟨d, later, hlast, rfl⟩
    refine ⟨d, later, hlast, ?_⟩
    rw [ClassDecl.constructorBody_run, hset]
  · rintro ⟨d, later, hlast, rfl⟩
    refine ⟨_, (lookupClass_run_eq_some_iff is name _).mpr ⟨d, later, hlast, rfl⟩, ?_⟩
    rw [ClassDecl.constructorBody_run, hset]

/-- After a run the answer is whether the function declared last under the name of the constructor
in force has its very body. -/
theorem runsConstructor_run_eq_some_iff (is : List (SymbolStep φ)) (name : ByteString)
    (b : Bool) :
    (run symbolStep empty is).2.runsConstructor name = some b ↔
      ∃ body f later, LeavesInForce name is (some body) ∧
        WrittenLast (functionUnder? body.val.name) is f later ∧ f.val.body.same body = b := by
  simp only [runsConstructor_eq_some_iff, constructorBody_run_iff, lookupFunction_run_eq_some_iff]
  constructor
  · rintro ⟨body, f, hbody, ⟨later, hf⟩, hsame⟩
    exact ⟨body, f, later, hbody, hf, hsame⟩
  · rintro ⟨body, f, later, hbody, hf, hsame⟩
    exact ⟨body, f, hbody, ⟨later, hf⟩, hsame⟩

/-- After a run there is no answer if no class was declared under a spelling of the name, if none is
in force as its constructor, or if no function was declared under a spelling of the constructor's
name. -/
theorem runsConstructor_run_eq_none_iff (is : List (SymbolStep φ)) (name : ByteString) :
    (run symbolStep empty is).2.runsConstructor name = none ↔
      (∀ c, .declareClass c ∈ is → name.equalsIgnoringCase c.name = false) ∨
      LeavesInForce name is none ∨
      ∃ body, LeavesInForce name is (some body) ∧ ∀ f, .declareFunction f ∈ is →
        body.val.name.equalsIgnoringCase f.val.name = false := by
  simp only [runsConstructor_eq_none_iff, constructorBody_run_iff, lookupClass_run_eq_none_iff,
    lookupFunction_run_eq_none_iff]

/-- When a function is declared under the name of the constructor in force, the answer is from then
on whether it has the very body, and the constructor is still in force. -/
theorem runsConstructor_run_declareFunction {is more : List (SymbolStep φ)} {name : ByteString}
    {body : Shared Body} {f : Shared FunctionDecl} (hbody : LeavesInForce name is (some body))
    (hname : body.val.name.equalsIgnoringCase f.val.name = true)
    (hmore : ∀ i ∈ more, i.Spares name body.val.name) :
    LeavesInForce name (is ++ .declareFunction f :: more) (some body) ∧
      (run symbolStep empty (is ++ .declareFunction f :: more)).2.runsConstructor name =
        some (f.val.body.same body) := by
  have hstill : LeavesInForce name (is ++ .declareFunction f :: more) (some body) := by
    apply hbody.append
    · intro i hi
      rcases List.mem_cons.mp hi with rfl | hi
      · rfl
      · exact (hmore i hi).classKept
    · intro i hi
      rcases List.mem_cons.mp hi with rfl | hi
      · rfl
      · exact (hmore i hi).constructorKept
  have hlast : WrittenLast (functionUnder? body.val.name) (is ++ .declareFunction f :: more) f
      more :=
    ⟨is, .declareFunction f, rfl, if_pos hname, fun i hi => (hmore i hi).functionKept⟩
  refine ⟨hstill, ?_⟩
  rw [runsConstructor_run_eq_some_iff]
  exact ⟨body, f, more, hstill, hlast, rfl⟩

end Registry

end ExecContext
