import ExecContext.Class.Step
import ExecContext.Proofs.Branch.Lineage
import ExecContext.Proofs.Table.Order

/-!
# The layout of classes

A class is told by its history: the steps that were taken on it, after those that were taken on
its ancestors before they were copied.  A property has the place of its first declaration for good,
and it is declared as was written last.  The instance layout and the table of a fresh instance
follow.

Main results:

- Theorem `ClassDecl.names_of_comes`: in which order properties are declared.
- Theorem `ClassDecl.get?_of_comes`: how they are declared.
- Theorem `ClassDecl.names_prefix_run`: declared properties keep their places.
- Theorem `ClassDecl.laid_out_by_history`: the layout of all classes that come from one.
-/

namespace ExecContext

namespace ClassDecl

variable {φ : Type}

/-! ## What a history declares -/

/-- The name that a step declares. -/
def declares? : ClassStep φ × ClassAnswer φ → Option ByteString
  | (.declare name _, _) => some name
  | _ => none

/-- What a step writes under a name: a declaration what it declares, and an edit that found one
what it puts in its place. -/
def writes? (name : ByteString) : ClassStep φ × ClassAnswer φ → Option PropertyDecl
  | (.declare other decl, _) => if name = other then some decl else none
  | (.edit other decl, .edited true) => if name = other then some decl else none
  | _ => none

/-- The properties that a class has after a history, in the order of their first declaration. -/
def declaredNames (first : ClassDecl φ) (history : List (ClassStep φ × ClassAnswer φ)) :
    List ByteString :=
  (first.properties.names ++ history.filterMap declares?).eraseDups

/-- How a property is declared after a history: as was written last. -/
def lastWritten (first : ClassDecl φ) (history : List (ClassStep φ × ClassAnswer φ))
    (name : ByteString) : Option PropertyDecl :=
  (history.filterMap (writes? name)).getLast?.or (first.properties.get? name)

/-! ## What a step declares -/

variable [FilterRule φ]

/-- Only a step that declares a name adds one, and only a new one. -/
theorem names_step (c : ClassDecl φ) (i : ClassStep φ) :
    (c.step i).state.properties.names =
      match declares? (i, (c.step i).answer) with
      | some name =>
        if name ∈ c.properties.names then c.properties.names else c.properties.names ++ [name]
      | none => c.properties.names := by
  cases i with
  | declare name decl => exact Table.names_insert c.properties name decl
  | edit name decl => exact Table.names_modify c.properties name _
  | _ => rfl

/-- A name is declared as a step writes it, or else as before. -/
theorem get?_step (c : ClassDecl φ) (i : ClassStep φ) (name : ByteString) :
    (c.step i).state.properties.get? name =
      (writes? name (i, (c.step i).answer)).or (c.properties.get? name) := by
  cases i with
  | declare other decl =>
    change (c.properties.insert other decl).get? name =
      (if name = other then some decl else none).or (c.properties.get? name)
    rw [Table.get?_insert]
    split <;> rfl
  | edit other decl =>
    change (c.properties.modify other fun _ => decl).get? name =
      (writes? name (.edit other decl, .edited (c.properties.contains other))).or
        (c.properties.get? name)
    cases hfound : c.properties.contains other with
    | false =>
      rw [Table.modify_of_not_contains _ hfound]
      rfl
    | true =>
      rw [← Table.insert_eq_modify decl hfound, Table.get?_insert]
      change _ = (if name = other then some decl else none).or (c.properties.get? name)
      split <;> rfl
  | _ => rfl

/-! ## What a history leaves -/

/-- The properties stand in the order of their first declaration. -/
theorem names_of_comes {first c : ClassDecl φ} {history : List (ClassStep φ × ClassAnswer φ)}
    (h : Branches.Comes step first history c) :
    c.properties.names = declaredNames first history := by
  induction h with
  | start =>
    rw [declaredNames, List.filterMap_nil, List.append_nil, eraseDups_eq_self]
    exact first.properties.nodup_names
  | @step history c _ i ih =>
    rw [names_step, declaredNames, List.filterMap_append, List.filterMap_cons, List.filterMap_nil]
    cases declares? (i, (c.step i).answer) with
    | none => rw [List.append_nil, ih, declaredNames]
    | some name =>
      have hmem : name ∈ c.properties.names ↔
          name ∈ first.properties.names ++ history.filterMap declares? := by
        rw [ih, declaredNames, List.mem_eraseDups]
      change (if name ∈ c.properties.names then _ else _) = _
      rw [← List.append_assoc]
      by_cases hname : name ∈ c.properties.names
      · rw [eraseDups_concat_of_mem (hmem.mp hname), if_pos hname, ih, declaredNames]
      · rw [eraseDups_concat_of_not_mem (mt hmem.mpr hname), if_neg hname, ih, declaredNames]

/-- A property is declared as was written last. -/
theorem get?_of_comes {first c : ClassDecl φ} {history : List (ClassStep φ × ClassAnswer φ)}
    (h : Branches.Comes step first history c) (name : ByteString) :
    c.properties.get? name = lastWritten first history name := by
  induction h with
  | start => rfl
  | @step history c _ i ih =>
    rw [get?_step, ih, lastWritten, lastWritten, List.filterMap_append, List.filterMap_cons,
      List.filterMap_nil]
    cases writes? name (i, (c.step i).answer) with
    | none => rw [List.append_nil, Option.none_or]
    | some decl => rw [List.getLast?_concat, Option.some_or, Option.some_or]

/-- Over any steps declared properties keep their places, before those that are declared then. -/
theorem names_prefix_run (c : ClassDecl φ) (is : List (ClassStep φ)) :
    c.properties.names <+: (run step c is).2.properties.names := by
  induction is generalizing c with
  | nil => exact List.prefix_rfl
  | cons i is ih =>
    refine List.IsPrefix.trans ?_ (ih (c.step i).state)
    rw [names_step]
    cases declares? (i, (c.step i).answer) with
    | none => exact List.prefix_rfl
    | some name =>
      change c.properties.names <+: if name ∈ c.properties.names then _ else _
      split
      · exact List.prefix_rfl
      · exact List.prefix_append _ _

/-! ## Views of the layout -/

omit [FilterRule φ]

/-- The layout of an instance, name by name. -/
theorem entries_instanceProperties_eq (c : ClassDecl φ) :
    c.instanceProperties.entries = c.properties.names.filterMap fun name =>
      ((c.properties.get? name).filter fun decl => !decl.isStatic).map fun decl => (name, decl) :=
  Table.entries_filter_eq _ c.properties

theorem contains_instanceProperties (c : ClassDecl φ) (name : ByteString) :
    c.instanceProperties.contains name =
      ((c.properties.get? name).filter fun decl => !decl.isStatic).isSome := by
  rw [Table.contains, instanceProperties, Table.get?_filter]

/-- The layout keeps the order of declaration. -/
theorem names_instanceProperties_eq (c : ClassDecl φ) :
    c.instanceProperties.names =
      c.properties.names.filter fun name => c.instanceProperties.contains name :=
  Table.names_filter_eq _ c.properties

/-- Collecting the values of a fresh instance loses none and keeps their order. -/
theorem defaultProperties_eq_ofList (c : ClassDecl φ) :
    c.defaultProperties =
      .ofList (c.instanceProperties.entries.map fun e => (e.1, e.2.default.getD .null)) :=
  (Table.ofList_entries c.defaultProperties).symm

/-- After a declaration the layout has the property exactly if it is not static, and the others as
before. -/
theorem contains_instanceProperties_declareProperty (c : ClassDecl φ) (name other : ByteString)
    (decl : PropertyDecl) :
    (c.declareProperty name decl).instanceProperties.contains other =
      if other = name then !decl.isStatic else c.instanceProperties.contains other := by
  rw [contains_instanceProperties, contains_instanceProperties, declareProperty, Table.get?_insert]
  split
  · cases h : decl.isStatic <;> simp [Option.filter, h]
  · rfl

/-- Redeclared properties stay where they are in the layout, if they stay in it. -/
theorem names_instanceProperties_declareProperty (c : ClassDecl φ) {name : ByteString}
    (h : name ∈ c.properties.names) (decl : PropertyDecl) :
    (c.declareProperty name decl).instanceProperties.names = c.properties.names.filter fun other =>
      if other = name then !decl.isStatic else c.instanceProperties.contains other := by
  have hnames : (c.declareProperty name decl).properties.names = c.properties.names :=
    Table.names_insert_of_mem decl h
  rw [names_instanceProperties_eq, hnames]
  exact List.filter_congr fun other _ =>
    c.contains_instanceProperties_declareProperty name other decl

/-! ## Laws of the layout -/

/-- A class has the properties that its history tells, and the views of its layout agree. -/
structure LaidOutBy (first : ClassDecl φ) (history : List (ClassStep φ × ClassAnswer φ))
    (c : ClassDecl φ) : Prop where
  /-- The properties stand in the order of their first declaration, each once, -/
  names : c.properties.names = declaredNames first history
  once : c.properties.names.Nodup
  /-- and are declared as was written last. -/
  infos : ∀ name, c.properties.get? name = lastWritten first history name
  /-- The layout of an instance is that of the properties that are not static. -/
  layout : c.instanceProperties.entries = (declaredNames first history).filterMap fun name =>
    ((lastWritten first history name).filter fun decl => !decl.isStatic).map fun decl => (name, decl)
  /-- A fresh instance has its properties in that order, with their defaults or else with null, -/
  fresh : c.defaultProperties.entries =
    c.instanceProperties.entries.map fun e => (e.1, e.2.default.getD .null)
  /-- and they are what is left when these are collected. -/
  collected : c.defaultProperties =
    .ofList (c.instanceProperties.entries.map fun e => (e.1, e.2.default.getD .null))

variable [FilterRule φ]

/-- A declared property leaves the layout and comes back to its place in it. -/
structure TogglesInPlace (c : ClassDecl φ) (name : ByteString) : Prop where
  /-- Redeclared static it is not in the layout, and the others are as they were. -/
  hidden : ∀ decl : PropertyDecl, decl.isStatic = true →
    (c.step (.declare name decl)).state.instanceProperties.names =
      c.instanceProperties.names.filter fun other => other ≠ name
  /-- Redeclared as not static after any steps it is in the layout, and this begins with those of
  the properties declared at first that are in it then, in the order they had. -/
  shown : ∀ (is : List (ClassStep φ)) (decl : PropertyDecl), decl.isStatic = false →
    let c' := ((run step c is).2.step (.declare name decl)).state
    c'.instanceProperties.contains name = true ∧
      (c.properties.names.filter fun other => c'.instanceProperties.contains other) <+:
        c'.instanceProperties.names
  /-- Redeclared static and back it is where it was. -/
  back : c.instanceProperties.contains name = true → ∀ decl decl' : PropertyDecl,
    decl'.isStatic = false →
      ((c.step (.declare name decl)).state.step (.declare name decl')).state.instanceProperties.names
        = c.instanceProperties.names

/-- An edit does what a declaration does, but to declared properties only. -/
structure EditsInPlace (c : ClassDecl φ) (name : ByteString) (decl : PropertyDecl) : Prop where
  declared : name ∈ c.properties.names → (c.step (.edit name decl)).answer = .edited true ∧
    (c.step (.edit name decl)).state = (c.step (.declare name decl)).state
  undeclared : name ∉ c.properties.names → (c.step (.edit name decl)).answer = .edited false ∧
    (c.step (.edit name decl)).state = c

theorem laidOutBy_of_comes {first c : ClassDecl φ} {history : List (ClassStep φ × ClassAnswer φ)}
    (h : Branches.Comes step first history c) : LaidOutBy first history c where
  names := names_of_comes h
  once := c.properties.nodup_names
  infos := get?_of_comes h
  layout := by
    rw [entries_instanceProperties_eq, names_of_comes h]
    refine List.filterMap_congr fun name _ => ?_
    rw [get?_of_comes h]
  fresh := rfl
  collected := c.defaultProperties_eq_ofList

theorem togglesInPlace {c : ClassDecl φ} {name : ByteString} (h : name ∈ c.properties.names) :
    TogglesInPlace c name where
  hidden decl hstatic := by
    change (c.declareProperty name decl).instanceProperties.names = _
    rw [names_instanceProperties_declareProperty c h, names_instanceProperties_eq,
      List.filter_filter]
    refine List.filter_congr fun other _ => ?_
    by_cases hother : other = name <;> simp [hother, hstatic]
  shown is decl hinstance := by
    have hfirst : c.properties.names <+: (run step c is).2.properties.names :=
      c.names_prefix_run is
    have hlast : (run step c is).2.properties.names <+:
        ((run step c is).2.step (.declare name decl)).state.properties.names :=
      names_prefix_run _ [.declare name decl]
    constructor
    · refine (contains_instanceProperties_declareProperty _ name name decl).trans ?_
      rw [if_pos rfl, hinstance]
      rfl
    · rw [names_instanceProperties_eq ((run step c is).2.step (.declare name decl)).state]
      exact (hfirst.trans hlast).filter _
  back hlayout decl decl' hinstance := by
    have hnames : (c.declareProperty name decl).properties.names = c.properties.names :=
      Table.names_insert_of_mem decl h
    change ((c.declareProperty name decl).declareProperty name decl').instanceProperties.names = _
    rw [names_instanceProperties_declareProperty _ (hnames ▸ h), hnames,
      names_instanceProperties_eq c]
    refine List.filter_congr fun other _ => ?_
    rw [contains_instanceProperties_declareProperty]
    by_cases hother : other = name <;> simp [hother, hinstance, hlayout]

theorem editsInPlace (c : ClassDecl φ) (name : ByteString) (decl : PropertyDecl) :
    EditsInPlace c name decl where
  declared h := by
    have hfound : c.properties.contains name = true := (Table.contains_eq_true_iff _ _).mpr h
    have htable : (c.properties.modify name fun _ => decl) = c.properties.insert name decl :=
      (Table.insert_eq_modify decl hfound).symm
    constructor
    · exact congrArg ClassAnswer.edited hfound
    · exact congrArg (fun t => { c with properties := t }) htable
  undeclared h := by
    have hfound : c.properties.contains name = false := by
      rw [← Bool.not_eq_true, Table.contains_eq_true_iff]
      exact h
    have htable : (c.properties.modify name fun _ => decl) = c.properties :=
      Table.modify_of_not_contains _ hfound
    constructor
    · exact congrArg ClassAnswer.edited hfound
    · exact congrArg (fun t => { c with properties := t }) htable

/-- All classes that come from one by declarations, edits, other steps and copies are laid out by
their own histories.  A property leaves the layout when it is redeclared static and comes back to
its place when it is redeclared as not static; an edit does what a declaration does, but to declared
properties only; and a step on one class leaves all others as they are, as does a copy, which starts
as its original is. -/
theorem laid_out_by_history (first : ClassDecl φ) (is : List (BranchStep (ClassStep φ))) :
    let classes := (run (Branches.step step) (Branches.single first) is).2
    (∀ (k : Nat) (c : ClassDecl φ), classes.states[k]? = some c →
      (∃ history, (Branches.lineages
          (Branches.transcript step (Branches.single first) is))[k]? = some history ∧
        LaidOutBy first history c) ∧
      (∀ name ∈ c.properties.names, TogglesInPlace c name) ∧
      ∀ name decl, EditsInPlace c name decl) ∧
    (∀ (k other : Nat) (i : ClassStep φ), other ≠ k →
      (classes.step step (.on k i)).state.states[other]? = classes.states[other]?) ∧
    ∀ (k : Nat) (c : ClassDecl φ), classes.states[k]? = some c →
      (classes.step step (.fork k)).state.states = classes.states ++ [c] := by
  intro classes
  refine ⟨?_, ?_, ?_⟩
  · intro k c hc
    refine ⟨?_, fun name hname => togglesInPlace hname, c.editsInPlace⟩
    rcases Branches.exists_lineage first is hc with ⟨history, hhistory, hcomes⟩
    exact ⟨history, hhistory, laidOutBy_of_comes hcomes⟩
  · intro k other i hother
    exact Branches.getElem?_step_other step classes i hother
  · intro k c hc
    exact Branches.states_fork step classes hc

end ClassDecl

end ExecContext
