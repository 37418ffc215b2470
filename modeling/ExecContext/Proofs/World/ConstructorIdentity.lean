import ExecContext.Class.Filter
import ExecContext.Proofs.Context.Symbols
import ExecContext.Proofs.Symbol.Constructors

/-!
# The identity of constructors

A class and a function share a body through two tables of a context, each of which goes by names
of its own.  Whether they do is asked by name: the class, the constructor that is in force for it,
the function of that body's name.  After any run the answer tells whether the two hold one and the
same body, however their names were spelled and whatever else was done in between; equal names of
bodies do not make them one.

Main results:

- Theorem `ContextWorld.answersOnConstructor_run_iff`: a context answers as a bare registry after
  the symbol steps of the run.
- Theorem `ContextWorld.constructors_keep_identity`: the answers after any run.
-/

namespace ExecContext

open SymbolStep

variable {F φ : Type} {n : Nat}

/-- A symbol step on a context is the first of its symbol steps. -/
theorem symbolSteps_cons_self (t : Fin n) (i : SymbolStep φ)
    (is : List (Addressed n (ContextStep F φ))) :
    symbolSteps t (⟨t, .symbol i⟩ :: is) = i :: symbolSteps t is :=
  List.filterMap_cons_some (if_pos rfl)

namespace ContextWorld

variable [FilterRule φ]

/-- Asked whether the function named like the constructor of the class runs the constructor, the
context answers so. -/
def AnswersOnConstructor (w : ContextWorld F φ n) (t : Fin n) (name : ByteString)
    (answer : Option Bool) : Prop :=
  (w.step ⟨t, .symbol (.runsConstructor name)⟩).answer.result =
    .symbol (.runsConstructor answer)

theorem answersOnConstructor_iff (w : ContextWorld F φ n) (t : Fin n) (name : ByteString)
    (answer : Option Bool) :
    w.AnswersOnConstructor t name answer ↔
      (w.member t).symbols.runsConstructor name = answer := by
  change ContextAnswer.symbol (.runsConstructor ((w.member t).symbols.runsConstructor name)) =
    .symbol (.runsConstructor answer) ↔ _
  rw [ContextAnswer.symbol.injEq, SymbolAnswer.runsConstructor.injEq]

/-- After a run a context answers as a bare registry on which all its symbol steps were taken. -/
theorem answersOnConstructor_run_iff {w : ContextWorld F φ n} {t : Fin n}
    {history : List (SymbolStep φ)}
    (told : (w.member t).symbols = (run Registry.symbolStep .empty history).2)
    (is : List (Addressed n (ContextStep F φ))) (name : ByteString) (answer : Option Bool) :
    (run step w is).2.AnswersOnConstructor t name answer ↔
      (run Registry.symbolStep .empty (history ++ symbolSteps t is)).2.runsConstructor name =
        answer := by
  rw [answersOnConstructor_iff, symbols_run, told, run_append]

/-- A context answers for its constructors as the steps `history` on its symbols tell. -/
structure TellsConstructors (w : ContextWorld F φ n) (t : Fin n) (history : List (SymbolStep φ)) :
    Prop where
  /-- There is no answer if no class was declared under a spelling of the name, if no constructor
  is in force for the last such class, or if no function was declared under a spelling of the
  constructor's name, and only then. -/
  absent_iff : ∀ name, w.AnswersOnConstructor t name none ↔
    (∀ c, .declareClass c ∈ history → name.equalsIgnoringCase c.name = false) ∨
    LeavesInForce name history none ∨
    ∃ body, LeavesInForce name history (some body) ∧ ∀ f, .declareFunction f ∈ history →
      body.val.name.equalsIgnoringCase f.val.name = false
  /-- Else it is yes if the last such function has that very body, -/
  same_iff : ∀ name, w.AnswersOnConstructor t name (some true) ↔
    ∃ body f later, LeavesInForce name history (some body) ∧
      WrittenLast (functionUnder? body.val.name) history f later ∧ f.val.body.id = body.id
  /-- and no if it has any other, of whatever name. -/
  other_iff : ∀ name, w.AnswersOnConstructor t name (some false) ↔
    ∃ body f later, LeavesInForce name history (some body) ∧
      WrittenLast (functionUnder? body.val.name) history f later ∧ f.val.body.id ≠ body.id
  /-- Where no two of the bodies handed in have one identity, the very body is the body itself. -/
  very : BodiesApart history → ∀ name, w.AnswersOnConstructor t name (some true) ↔
    ∃ body f later, LeavesInForce name history (some body) ∧
      WrittenLast (functionUnder? body.val.name) history f later ∧ f.val.body = body
  /-- A function declared under any spelling of the constructor's name with another body turns the
  answer to no, and one declared with the constructor's body turns it to yes again, whatever steps
  are taken meanwhile and afterwards that spare the constructor and the function. -/
  redeclared : ∀ name body f g (js ks : List (Addressed n (ContextStep F φ))),
    LeavesInForce name history (some body) →
    body.val.name.equalsIgnoringCase f.val.name = true → f.val.body.id ≠ body.id →
    body.val.name.equalsIgnoringCase g.val.name = true → g.val.body.id = body.id →
    (∀ i ∈ symbolSteps t js, i.Spares name body.val.name) →
    (∀ i ∈ symbolSteps t ks, i.Spares name body.val.name) →
    let w' := (run step w (⟨t, .symbol (.declareFunction f)⟩ :: js)).2
    w'.AnswersOnConstructor t name (some false) ∧
      (run step w' (⟨t, .symbol (.declareFunction g)⟩ :: ks)).2.AnswersOnConstructor t name
        (some true)

/-- Where the symbols of a context are those that steps tell, so are its answers. -/
theorem tellsConstructors_of_history {w : ContextWorld F φ n} {t : Fin n}
    {history : List (SymbolStep φ)}
    (told : (w.member t).symbols = (run Registry.symbolStep .empty history).2) :
    w.TellsConstructors t history := by
  have hanswers : ∀ name answer, w.AnswersOnConstructor t name answer ↔
      (run Registry.symbolStep .empty history).2.runsConstructor name = answer := by
    intro name answer
    rw [answersOnConstructor_iff, told]
  have hsame : ∀ name, w.AnswersOnConstructor t name (some true) ↔
      ∃ body f later, LeavesInForce name history (some body) ∧
        WrittenLast (functionUnder? body.val.name) history f later ∧ f.val.body.id = body.id := by
    intro name
    simp only [hanswers, Registry.runsConstructor_run_eq_some_iff, Shared.same_iff]
  refine ⟨?_, hsame, ?_, ?_, ?_⟩
  · intro name
    rw [hanswers, Registry.runsConstructor_run_eq_none_iff]
  · intro name
    simp only [hanswers, Registry.runsConstructor_run_eq_some_iff, ← Bool.not_eq_true,
      Shared.same_iff, ne_eq]
  · intro apart name
    rw [hsame]
    constructor
    · rintro ⟨body, f, later, hbody, hf, hid⟩
      exact ⟨body, f, later, hbody, hf, apart.eq_of_id_eq hbody hf hid⟩
    · rintro ⟨body, f, later, hbody, hf, rfl⟩
      exact ⟨_, f, later, hbody, hf, rfl⟩
  · intro name body f g js ks hbody hfname hf hgname hg hjs hks w'
    have hno : f.val.body.same body = false := by
      rw [← Bool.not_eq_true, Shared.same_iff]
      exact hf
    have hyes : g.val.body.same body = true := (Shared.same_iff _ _).mpr hg
    rcases Registry.runsConstructor_run_declareFunction hbody hfname hjs with ⟨hstill, hoff⟩
    rcases Registry.runsConstructor_run_declareFunction hstill hgname hks with ⟨-, hon⟩
    constructor
    · rw [answersOnConstructor_run_iff told, symbolSteps_cons_self, hoff, hno]
    · have hlater : (w'.member t).symbols = (run Registry.symbolStep .empty
          (history ++ .declareFunction f :: symbolSteps t js)).2 := by
        rw [symbols_run, symbolSteps_cons_self, told, run_append]
      rw [answersOnConstructor_run_iff hlater, symbolSteps_cons_self, hon, hyes]

/-- After any run of fresh contexts each answers for its constructors as the steps that were taken
on its symbols tell. -/
theorem constructors_keep_identity (configs : Vector Config n)
    (is : List (Addressed n (ContextStep F φ))) (t : Fin n) :
    (run step (create configs) is).2.TellsConstructors t (symbolSteps t is) := by
  apply tellsConstructors_of_history
  have hfresh : ((create configs : ContextWorld F φ n).member t).symbols = .empty := by
    rw [member_create]
    rfl
  rw [symbols_run, hfresh]

/-- Declared under another spelling with a body that has the constructor's name, a function turns
the answer to no; declared again with the constructor it turns the answer to yes, as the two then
hold one body. -/
theorem constructors_keep_identity_redeclared :
    let body : Shared Body := ⟨0, ⟨[0x63]⟩⟩
    let twin : Shared Body := ⟨1, ⟨[0x63]⟩⟩
    let f : Shared FunctionDecl := ⟨0, { name := [0x43], body := twin }⟩
    let g : Shared FunctionDecl := ⟨1, { name := [0x63], body := body }⟩
    let is : List (Addressed 1 (ContextStep Value StockFilter)) :=
      [⟨0, .symbol (.declareClass { name := [0x41] })⟩,
        ⟨0, .symbol (.updateClass [0x61] (.setConstructor (some body)))⟩]
    let js : List (Addressed 1 (ContextStep Value StockFilter)) :=
      [⟨0, .frame (.push .null)⟩,
        ⟨0, .symbol (.declareFunction ⟨2, { name := [0x64], body := twin }⟩)⟩]
    let both : List (Addressed 1 (ContextStep Value StockFilter)) :=
      is ++ [⟨0, .symbol (.declareFunction f)⟩, ⟨0, .symbol (.declareFunction g)⟩]
    let w' := (run step (run step (create #v[{}]) is).2
      (⟨0, .symbol (.declareFunction f)⟩ :: js)).2
    w'.AnswersOnConstructor 0 [0x61] (some false) ∧
      (run step w' [⟨0, .symbol (.declareFunction g)⟩]).2.AnswersOnConstructor 0 [0x61]
        (some true) ∧
      (run step (create #v[{}]) both).2.AnswersOnConstructor 0 [0x61] (some true) := by
  intro body twin f g is js both w'
  have hunset : ∀ i ∈ ([.updateClass [0x61] (.setConstructor (some body))] :
      List (SymbolStep StockFilter)), classUnder? [0x61] i = none :=
    List.forall_mem_singleton.mpr rfl
  have hbody : LeavesInForce [0x61] (symbolSteps 0 is) (some body) :=
    ⟨_, _, ⟨[], _, rfl, rfl, hunset⟩, rfl⟩
  have hspares : ∀ i ∈ symbolSteps 0 js, i.Spares [0x61] body.val.name :=
    List.forall_mem_singleton.mpr ⟨rfl, rfl, rfl⟩
  have hturned := (constructors_keep_identity #v[{}] is 0).redeclared [0x61] body f g js [] hbody
    (by decide) (by decide) (by decide) (by decide) hspares (List.forall_mem_nil _)
  have apart : BodiesApart (symbolSteps 0 both) := by
    change ∀ x ∈ ([⟨0, ⟨[0x63]⟩⟩, ⟨1, ⟨[0x63]⟩⟩, ⟨0, ⟨[0x63]⟩⟩] : List (Shared Body)),
      ∀ y ∈ ([⟨0, ⟨[0x63]⟩⟩, ⟨1, ⟨[0x63]⟩⟩, ⟨0, ⟨[0x63]⟩⟩] : List (Shared Body)),
        x.id = y.id → x = y
    decide
  have hdeclared : ∀ i ∈ ([.declareFunction f, .declareFunction g] : List (SymbolStep StockFilter)),
      classUnder? [0x61] i = none ∧ setsConstructor? [0x61] i = none := by
    simp [classUnder?, setsConstructor?, classStep?]
  have hbodyOfBoth : LeavesInForce [0x61] (symbolSteps 0 both) (some body) :=
    hbody.append (fun i hi => (hdeclared i hi).1) fun i hi => (hdeclared i hi).2
  have hlast : WrittenLast (functionUnder? body.val.name) (symbolSteps 0 both) g [] :=
    ⟨symbolSteps 0 is ++ [.declareFunction f], .declareFunction g, rfl, rfl, List.forall_mem_nil _⟩
  exact ⟨hturned.1, hturned.2, ((constructors_keep_identity #v[{}] both 0).very apart [0x61]).mpr
    ⟨body, g, [], hbodyOfBoth, hlast, rfl⟩⟩

end ContextWorld

end ExecContext
