import ExecContext.Class.Filter
import ExecContext.Proofs.Run.OneStep
import ExecContext.Proofs.Run.Transcript
import ExecContext.Proofs.Symbol.Alike

/-!
# Ways of building a class

A class may be finished before it is declared, or declared first and then be changed in its
place, or by declaring changed copies one after another.  Whatever is done to other classes and
to functions meanwhile, all three ways answer the same and leave registries that cannot be told
apart: each keeps the class under its name, as it is by itself after the same steps, over
whatever the other steps made of the rest.

Main results:

- Definition `BuildStep`: the steps on a class that is being built, among others.
- Theorem `Registry.declared_step`: steps on other names do not see whether a class is declared.
- Theorem `Registry.Route.run`: what a run builds, in place or by copies.
- Theorem `Registry.built_alike`: the three ways build the same.
-/

namespace ExecContext

variable {φ : Type}

/-! ## Steps of building -/

/-- Whether a step is about functions, or about classes with other names than this one. -/
def SymbolStep.spares (name : ByteString) : SymbolStep φ → Bool
  | .declareFunction _ | .lookupFunction _ | .hasFunction _ | .functionNames => true
  | .declareClass c => !c.name.equalsIgnoringCase name
  | .lookupClass spelling | .hasClass spelling | .updateClass spelling _
  | .runsConstructor spelling => !spelling.equalsIgnoringCase name
  | .counts | .classNames => false

/-- Whether a step is about functions, or about classes with other names; so is a step on a
copy if it would be in place. -/
def RegistryStep.spares (name : ByteString) (i : RegistryStep φ) : Bool :=
  i.inPlace.spares name

/-- What is done while the class of a name is being built. -/
inductive BuildStep (φ : Type) (name : ByteString) where
  /-- Take a step on the class, under any spelling of its name. -/
  | own (spelling : ByteString) (spells : spelling.equalsIgnoringCase name = true)
    (step : ClassStep φ)
  /-- Take a step on something else. -/
  | other (step : RegistryStep φ) (spares : step.spares name = true)

namespace BuildStep

variable {name : ByteString}

/-- The step on the class that a step is, if it is one. -/
def own? : BuildStep φ name → Option (ClassStep φ)
  | .own _ _ s => some s
  | .other _ _ => none

/-- The step on something else that a step is, if it is one. -/
def other? : BuildStep φ name → Option (RegistryStep φ)
  | .own _ _ _ => none
  | .other i _ => some i

/-- Take steps on the class in its place. -/
def inPlace : BuildStep φ name → RegistryStep φ
  | .own spelling _ s => .symbol (.updateClass spelling s)
  | .other i _ => i

/-- Take steps on copies of the class and declare these. -/
def byCopy : BuildStep φ name → RegistryStep φ
  | .own spelling _ s => .redeclareCopy spelling s
  | .other i _ => i

/-- The other steps spare the name. -/
theorem spares_of_mem_others {is : List (BuildStep φ name)} {i : RegistryStep φ}
    (hi : i ∈ is.filterMap other?) : i.spares name = true := by
  rcases List.mem_filterMap.mp hi with ⟨b, -, hb⟩
  cases b with
  | own => cases hb
  | other j spares =>
    cases hb
    exact spares

end BuildStep

/-- Takes one step and shows the class that it changes as it was. -/
def ClassDecl.replacingStep [FilterRule φ] (c : ClassDecl φ) (s : ClassStep φ) :
    Outcome (ClassDecl φ) (ClassAnswer φ × ClassDecl φ) :=
  (c.step s).map (fun answer => (answer, c)) id

/-- Steps keep the name of the class. -/
theorem ClassDecl.name_run_replacingStep [FilterRule φ] (c : ClassDecl φ)
    (ss : List (ClassStep φ)) : (run replacingStep c ss).2.name = c.name := by
  have keeps : ∀ (d : ClassDecl φ) s, d.name = c.name →
      (d.replacingStep s).state.name = c.name := by
    intro d s hd
    exact (name_step d s).trans hd
  exact run_invariant keeps rfl ss

namespace Registry

/-! ## Steps on other names -/

/-- Other names find the same whether or not the class is declared. -/
theorem lookupClass_declareClass_other (q : Registry φ) {c : ClassDecl φ} {spelling : ByteString}
    (h : (!spelling.equalsIgnoringCase c.name) = true) :
    (q.declareClass c).state.lookupClass spelling = q.lookupClass spelling := by
  have hne : ¬ spelling.lower = c.name.lower := by
    rw [ByteString.lower_eq_lower_iff]
    simpa using h
  rw [lookupClass_declareClass, if_neg hne]

variable [FilterRule φ]

/-- A step on other names neither declares the class of a name nor changes it. -/
theorem lookupClass_symbolStep_of_spares {s : SymbolStep φ} {name spelling : ByteString}
    (hs : s.spares name = true) (spells : spelling.lower = name.lower) (r : Registry φ) :
    (r.symbolStep s).state.lookupClass spelling = r.lookupClass spelling := by
  have hunder : SymbolStep.classUnder? spelling s = none := by
    cases s with
    | declareClass d =>
      have hne : ¬ spelling.lower = d.name.lower := by
        rw [spells, eq_comm, ByteString.lower_eq_lower_iff]
        simpa [SymbolStep.spares] using hs
      exact if_neg fun hsame => hne ((ByteString.lower_eq_lower_iff spelling d.name).mpr hsame)
    | _ => rfl
  have hstep : SymbolStep.classStep? spelling s = none := by
    cases s with
    | updateClass other i =>
      have hne : ¬ spelling.lower = other.lower := by
        rw [spells, eq_comm, ByteString.lower_eq_lower_iff]
        simpa [SymbolStep.spares] using hs
      exact if_neg fun hsame => hne ((ByteString.lower_eq_lower_iff spelling other).mpr hsame)
    | _ => rfl
  have hfind := (classCell spelling).find_step r s
  rw [hunder, SymbolStep.amendsClass_of_none hstep, Option.none_or, Option.map_id] at hfind
  exact hfind

/-- A step on other names answers the same whether or not the class is declared. -/
theorem answer_declared_symbolStep (q : Registry φ) {c : ClassDecl φ} {s : SymbolStep φ}
    (hs : s.spares c.name = true) :
    ((q.declareClass c).state.symbolStep s).answer = (q.symbolStep s).answer := by
  cases s with
  | declareFunction | lookupFunction | hasFunction | functionNames => rfl
  | declareClass d =>
    have hfind := lookupClass_declareClass_other q hs
    exact congrArg SymbolAnswer.classDecl hfind
  | lookupClass spelling =>
    have hfind := lookupClass_declareClass_other q hs
    exact congrArg SymbolAnswer.classDecl hfind
  | hasClass spelling =>
    have hfind := lookupClass_declareClass_other q hs
    exact congrArg (fun found => SymbolAnswer.present found.isSome) hfind
  | updateClass spelling i =>
    have hfind := lookupClass_declareClass_other q hs
    cases h : q.lookupClass spelling <;> simp [symbolStep, updateClass, hfind, h]
  | runsConstructor spelling =>
    have hfind := lookupClass_declareClass_other q hs
    simp only [symbolStep, runsConstructor, hfind, lookupFunction_declareClass]
  | counts | classNames => cases hs

/-- What a step on other names leaves does not depend on whether the class is declared before or
after it. -/
theorem alike_declared_symbolStep {q : Registry φ} (keyed : q.Keyed) {c : ClassDecl φ}
    {s : SymbolStep φ} (hs : s.spares c.name = true) :
    ((q.declareClass c).state.symbolStep s).state.Alike
      ((q.symbolStep s).state.declareClass c).state where
  left := keyed_symbolStep (keyed.declareClass c) s
  right := (keyed_symbolStep keyed s).declareClass c
  functions name := by
    have hdeclared := (functionCell name).find_step (q.declareClass c).state s
    have hq := (functionCell name).find_step q s
    rw [hdeclared, lookupFunction_declareClass, lookupFunction_declareClass, hq]
  classes name := by
    rw [lookupClass_declareClass]
    by_cases hname : name.lower = c.name.lower
    · rw [if_pos hname, lookupClass_symbolStep_of_spares hs hname, lookupClass_declareClass,
        if_pos hname]
    · have hdeclared := (classCell name).find_step (q.declareClass c).state s
      have hq := (classCell name).find_step q s
      rw [if_neg hname, hdeclared, lookupClass_declareClass, if_neg hname, hq]

/-- Steps on other names do not see whether a class is declared, and leave the same otherwise. -/
theorem declared_step {q : Registry φ} (keyed : q.Keyed) {c : ClassDecl φ} {i : RegistryStep φ}
    (hi : i.spares c.name = true) :
    ((q.declareClass c).state.step i).answer = (q.step i).answer ∧
      ((q.declareClass c).state.step i).state.Alike ((q.step i).state.declareClass c).state := by
  constructor
  · cases i with
    | symbol s => exact answer_declared_symbolStep q hi
    | redeclareCopy spelling s =>
      have hfind := lookupClass_declareClass_other q hi
      cases h : q.lookupClass spelling with
      | none => simp [step, redeclareCopy, hfind, h]
      | some d =>
        -- The copy bears the name under which its original was found.
        have hspares : (!d.name.equalsIgnoringCase c.name) = true := by
          rw [Bool.not_eq_true', ← Bool.not_eq_true, ← ByteString.lower_eq_lower_iff,
            keyed.lower_eq_of_lookupClass h, ByteString.lower_eq_lower_iff]
          simpa [RegistryStep.spares, RegistryStep.inPlace, SymbolStep.spares] using hi
        have hprevious : ((q.declareClass c).state.declareClass (d.step s).state).answer =
            (q.declareClass (d.step s).state).answer := by
          change (q.declareClass c).state.lookupClass (d.step s).state.name =
            q.lookupClass (d.step s).state.name
          rw [ClassDecl.name_step, lookupClass_declareClass_other q hspares]
        simp [step, redeclareCopy, hfind, h, hprevious]
  · rw [state_step_inPlace (keyed.declareClass c), state_step_inPlace keyed]
    exact alike_declared_symbolStep keyed hi

/-- It is the same on every registry that is like one in which the class is declared. -/
theorem Alike.declared_step {r q : Registry φ} {c : ClassDecl φ}
    (h : r.Alike (q.declareClass c).state) (keyed : q.Keyed) {i : RegistryStep φ}
    (hi : i.spares c.name = true) :
    (r.step i).answer = (q.step i).answer ∧
      (r.step i).state.Alike ((q.step i).state.declareClass c).state := by
  have hdeclared := Registry.declared_step keyed hi
  have hreply := congrArg Reply.answer (h.toReply_step i)
  exact ⟨hreply.trans hdeclared.1, (h.step i).trans hdeclared.2⟩

/-- Steps on other names leave the class of a name alone. -/
theorem lookupClass_run_of_spares {r : Registry φ} (keyed : r.Keyed) {name : ByteString}
    {is : List (RegistryStep φ)} (spares : ∀ i ∈ is, i.spares name = true) :
    (run step r is).2.lookupClass name = r.lookupClass name := by
  induction is generalizing r with
  | nil => rfl
  | cons i is ih =>
    have hi := spares i List.mem_cons_self
    have hrest := ih (keyed_step keyed i) fun j hj => spares j (List.mem_cons_of_mem i hj)
    have hstep := lookupClass_symbolStep_of_spares hi rfl r
    rw [run_cons, hrest, state_step_inPlace keyed, hstep]

/-- Runs of steps on other names do not see whether a class is declared, and leave the same
otherwise. -/
theorem declared_run {r q : Registry φ} (keyed : q.Keyed) {c : ClassDecl φ}
    (h : r.Alike (q.declareClass c).state) {is : List (RegistryStep φ)}
    (spares : ∀ i ∈ is, i.spares c.name = true) :
    (run step r is).1.map Reply.answer = (run step q is).1.map Reply.answer ∧
      (run step r is).2.Alike ((run step q is).2.declareClass c).state := by
  induction is generalizing r q with
  | nil => exact ⟨rfl, h⟩
  | cons i is ih =>
    have hstep := h.declared_step keyed (spares i List.mem_cons_self)
    have hrest := ih (keyed_step keyed i) hstep.2 fun j hj =>
      spares j (List.mem_cons_of_mem i hj)
    exact ⟨congrArg₂ List.cons hstep.1 hrest.1, hrest.2⟩

/-- A class that is declared after the first `k` steps on other names replaces what was there
before these; they answer as they do without it; and it is kept over what they leave. -/
theorem declared_among {r : Registry φ} (keyed : r.Keyed) {c : ClassDecl φ}
    {others : List (RegistryStep φ)} (spares : ∀ i ∈ others, i.spares c.name = true) (k : Nat) :
    let among := run step r (others.take k ++ .symbol (.declareClass c) :: others.drop k)
    let alone := (run step r others).1.map Reply.answer
    among.1.map Reply.answer =
        alone.take k ++ .classDecl (r.lookupClass c.name) :: alone.drop k ∧
      among.2.Alike ((run step r others).2.declareClass c).state := by
  intro among alone
  let before := run step r (others.take k)
  let after := run step before.2 (others.drop k)
  have hbefore : ∀ i ∈ others.take k, i.spares c.name = true := by
    intro i hi
    exact spares i (List.mem_of_mem_take hi)
  have hafter : ∀ i ∈ others.drop k, i.spares c.name = true := by
    intro i hi
    exact spares i (List.mem_of_mem_drop hi)
  have keeps : ∀ (q : Registry φ) i, q.Keyed → (q.step i).state.Keyed := by
    intro q i hq
    exact keyed_step hq i
  have keyedBefore : before.2.Keyed := run_invariant keeps keyed (others.take k)
  have hlater := declared_run keyedBefore (.refl (keyedBefore.declareClass c)) hafter
  have hprevious : before.2.lookupClass c.name = r.lookupClass c.name :=
    lookupClass_run_of_spares keyed hbefore
  have hamong : among = (before.1 ++ (before.2.step (.symbol (.declareClass c))).toReply ::
      (run step (before.2.declareClass c).state (others.drop k)).1,
        (run step (before.2.declareClass c).state (others.drop k)).2) :=
    run_middle step r (others.take k) (.symbol (.declareClass c)) (others.drop k)
  constructor
  · have htake : alone.take k = before.1.map Reply.answer := by
      rw [← List.map_take, take_run]
    have hdrop : alone.drop k = after.1.map Reply.answer := by
      rw [← List.map_drop, drop_run]
    rw [hamong, List.map_append, List.map_cons, hlater.1, htake, hdrop, ← hprevious]
    rfl
  · have halone : (run step r others).2 = after.2 := by
      have happend := run_append step r (others.take k) (others.drop k)
      rw [List.take_append_drop] at happend
      rw [happend]
    rw [hamong, halone]
    exact hlater.2

/-! ## Steps on the class -/

/-- A step on the class leaves what declaring the class after the step would have left. -/
theorem alike_declared_updateClass {q : Registry φ} (keyed : q.Keyed) {c : ClassDecl φ}
    {spelling : ByteString} (spells : spelling.lower = c.name.lower) (s : ClassStep φ) :
    ((q.declareClass c).state.symbolStep (.updateClass spelling s)).state.Alike
      (q.declareClass (c.step s).state).state where
  left := keyed_symbolStep (keyed.declareClass c) _
  right := keyed.declareClass (c.step s).state
  functions name := by
    have hkept : ((q.declareClass c).state.symbolStep (.updateClass spelling s)).state.functions =
        q.functions := functions_updateClass _ spelling fun d => d.step s
    rw [lookupFunction, hkept]
    rfl
  classes name := by
    have hfound : (q.declareClass c).state.lookupClass spelling = some c := by
      rw [lookupClass_declareClass, if_pos spells]
    have hupdated := lookupClass_updateClass (fun d => d.step s) hfound name
    rw [lookupClass_declareClass, ClassDecl.name_step, ← spells]
    refine hupdated.trans ?_
    by_cases hname : name.lower = spelling.lower
    · rw [if_pos hname, if_pos hname]
    · have hne : ¬ name.lower = c.name.lower := spells ▸ hname
      rw [if_neg hname, if_neg hname, lookupClass_declareClass, if_neg hne]

/-- A way of taking steps on a declared class: what it takes leaves what the change in place
leaves, and shows the answer of the step and the class that it changes. -/
structure Route {name : ByteString} (take : BuildStep φ name → RegistryStep φ)
    (shown : ClassAnswer φ × ClassDecl φ → SymbolAnswer φ) : Prop where
  other : ∀ i spares, take (.other i spares) = i
  inPlace : ∀ spelling spells s, (take (.own spelling spells s)).inPlace = .updateClass spelling s
  answer : ∀ {r : Registry φ} {c : ClassDecl φ} {spelling : ByteString} (spells) (s : ClassStep φ),
    r.Keyed → r.lookupClass spelling = some c →
      (r.step (take (.own spelling spells s))).answer = shown (c.replacingStep s).answer

theorem route_inPlace {name : ByteString} :
    Route (BuildStep.inPlace : BuildStep φ name → RegistryStep φ)
      fun a => .updated (some a.1) where
  other _ _ := rfl
  inPlace _ _ _ := rfl
  answer {r c spelling} spells s keyed hfound := by
    simp [BuildStep.inPlace, step, symbolStep, updateClass, ClassDecl.replacingStep, hfound]

theorem route_byCopy {name : ByteString} :
    Route (BuildStep.byCopy : BuildStep φ name → RegistryStep φ)
      fun a => .redeclared (some (a.1, some a.2)) where
  other _ _ := rfl
  inPlace _ _ _ := rfl
  answer _ s keyed hfound := (replacesOnly keyed hfound s).answer

namespace Route

variable {name : ByteString} {take : BuildStep φ name → RegistryStep φ}
  {shown : ClassAnswer φ × ClassDecl φ → SymbolAnswer φ} {r q : Registry φ} {c : ClassDecl φ}

/-- On a registry that keeps the class over `q`, a step on the class answers as the class does by
itself, and leaves a registry that keeps what it makes of the class over `q`. -/
theorem step_own (route : Route take shown) (hname : c.name = name) (keyed : q.Keyed)
    (h : r.Alike (q.declareClass c).state) (spelling : ByteString)
    (spells : spelling.equalsIgnoringCase name = true) (s : ClassStep φ) :
    (r.step (take (.own spelling spells s))).answer = shown (c.replacingStep s).answer ∧
      (r.step (take (.own spelling spells s))).state.Alike
        (q.declareClass (c.replacingStep s).state).state := by
  have hlower : spelling.lower = c.name.lower := by
    rw [hname, ByteString.lower_eq_lower_iff, spells]
  have hfound : r.lookupClass spelling = some c := by
    rw [h.classes, lookupClass_declareClass, if_pos hlower]
  have hplace := alike_declared_updateClass keyed hlower s
  constructor
  · exact route.answer spells s h.left hfound
  · rw [state_step_inPlace h.left, route.inPlace]
    exact (h.symbolStep (.updateClass spelling s)).trans hplace

/-- There a step on something else answers as on `q`, and leaves a registry that keeps the class
over what it makes of `q`. -/
theorem step_other (route : Route take shown) (hname : c.name = name) (keyed : q.Keyed)
    (h : r.Alike (q.declareClass c).state) (i : RegistryStep φ) (spares : i.spares name = true) :
    (r.step (take (.other i spares))).answer = (q.step i).answer ∧
      (r.step (take (.other i spares))).state.Alike ((q.step i).state.declareClass c).state := by
  subst hname
  rw [route.other]
  exact h.declared_step keyed spares

/-- The steps on the class answer as the class does by itself, the others as if it were not
declared; and the class is kept, as it is then, over what these others made of the rest. -/
theorem run (route : Route take shown) (hname : c.name = name) (keyed : q.Keyed)
    (h : r.Alike (q.declareClass c).state) (is : List (BuildStep φ name)) :
    let built := run Registry.step r (is.map take)
    let own := run ClassDecl.replacingStep c (is.filterMap BuildStep.own?)
    let rest := run Registry.step q (is.filterMap BuildStep.other?)
    answersTo BuildStep.own? is built.1 = own.1.map (fun reply => shown reply.answer) ∧
      answersTo BuildStep.other? is built.1 = rest.1.map Reply.answer ∧
      built.2.Alike (rest.2.declareClass own.2).state := by
  intro built own rest
  induction is generalizing r q c with
  | nil => exact ⟨rfl, rfl, h⟩
  | cons i is ih =>
    cases i with
    | own spelling spells s =>
      have hstep := route.step_own hname keyed h spelling spells s
      have hkept : (c.replacingStep s).state.name = name := (ClassDecl.name_step c s).trans hname
      have hrest := ih hkept keyed hstep.2
      refine ⟨?_, hrest.2.1, hrest.2.2⟩
      exact congrArg₂ List.cons hstep.1 hrest.1
    | other j spares =>
      have hstep := route.step_other hname keyed h j spares
      have hrest := ih hname (keyed_step keyed j) hstep.2
      refine ⟨hrest.1, ?_, hrest.2.2⟩
      exact congrArg₂ List.cons hstep.1 hrest.2.1

end Route

/-! ## The three ways -/

/-- On a registry that any history left, a class is built in three ways: its steps are taken on
it by itself, and what comes of them is declared among the other steps, after the first `k` of
them; or it is declared first, and its steps are taken on it in its place; or they are taken on
copies of it that are declared one after another.  The class answers the same in all three, a
copy showing also the class that it replaces; everything else answers as if the class were not
there; and no later steps tell apart the registries that the three ways leave.  Each further copy
replaces the class as it is then, and nothing else. -/
theorem built_alike (history : List (RegistryStep φ)) (c : ClassDecl φ)
    (is : List (BuildStep φ c.name)) (k : Nat) :
    let r := (run step empty history).2
    let own := run ClassDecl.replacingStep c (is.filterMap BuildStep.own?)
    let others := is.filterMap BuildStep.other?
    let alone := (run step r others).1.map Reply.answer
    let declared := r.step (.symbol (.declareClass c))
    let first := run step r (others.take k ++ .symbol (.declareClass own.2) :: others.drop k)
    let inPlace := run step declared.state (is.map BuildStep.inPlace)
    let byCopy := run step declared.state (is.map BuildStep.byCopy)
    answersTo BuildStep.own? is inPlace.1 =
      own.1.map (fun reply => .updated (some reply.answer.1)) ∧
    answersTo BuildStep.own? is byCopy.1 =
      own.1.map (fun reply => .redeclared (some (reply.answer.1, some reply.answer.2))) ∧
    first.1.map Reply.answer = alone.take k ++ declared.answer :: alone.drop k ∧
    answersTo BuildStep.other? is inPlace.1 = alone ∧
    answersTo BuildStep.other? is byCopy.1 = alone ∧
    (∀ later, (run step inPlace.2 later).1 = (run step first.2 later).1 ∧
      (run step byCopy.2 later).1 = (run step first.2 later).1) ∧
    ∀ spelling s, spelling.equalsIgnoringCase c.name = true →
      byCopy.2.ReplacesOnly spelling s own.2 := by
  intro r own others alone declared first inPlace byCopy
  have keyed : r.Keyed := keyed_run history
  have hname : own.2.name = c.name := ClassDecl.name_run_replacingStep c _
  have spares : ∀ i ∈ others, i.spares own.2.name = true := by
    intro i hi
    rw [hname]
    exact BuildStep.spares_of_mem_others hi
  have hself : declared.state.Alike (r.declareClass c).state := .refl (keyed.declareClass c)
  have hfirst := declared_among keyed spares k
  have hinPlace := route_inPlace.run rfl keyed hself is
  have hbyCopy := route_byCopy.run rfl keyed hself is
  refine ⟨hinPlace.1, hbyCopy.1, ?_, hinPlace.2.1, hbyCopy.2.1, ?_, ?_⟩
  · have hanswers := hfirst.1
    rwa [hname] at hanswers
  · intro later
    have hplaces := hinPlace.2.2.trans hfirst.2.symm
    have hcopies := hbyCopy.2.2.trans hfirst.2.symm
    exact ⟨(hplaces.run later).1, (hcopies.run later).1⟩
  · intro spelling s spells
    have hlower : spelling.lower = own.2.name.lower := by
      rw [hname, ByteString.lower_eq_lower_iff, spells]
    have hfound : byCopy.2.lookupClass spelling = some own.2 := by
      rw [hbyCopy.2.2.classes, lookupClass_declareClass, if_pos hlower]
    exact replacesOnly hbyCopy.2.2.left hfound s

example :
    let c : ClassDecl StockFilter := { name := [66, 111, 120] }
    let is : List (BuildStep StockFilter c.name) :=
      [.own [98, 111, 120] rfl (.declare [119] {}),
        .other (.symbol (.declareClass { name := [67] })) rfl,
        .own [66, 79, 88] rfl (.edit [119] { isReadonly := true })]
    let declared := (empty.declareClass c).state
    (run step declared (is.map BuildStep.byCopy)).2.lookupClass c.name =
      some (run ClassDecl.step c [.declare [119] {}, .edit [119] { isReadonly := true }]).2 := by
  decide

end Registry

end ExecContext
