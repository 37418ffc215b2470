import ExecContext.Class.Filter
import ExecContext.Proofs.Class.Passes

/-!
# Reading as one conjunctive filter

However many filters a class has, a reading is a single restriction of the table: to the entries
that satisfy every filter whose purpose shares a bit with the reason.  So the order of several
readings does not matter, and more reasons leave less.

A filter is handed the whole class, and with it the filters that the class has.  Laws that compare
classes with different filters hold where the filters say the same of both; a filter that looks at
the others can add entries when one more is registered, and can go by the order of registration.

Main results:

- Theorems `ClassDecl.getProperties_of_perm` and `ClassDecl.getProperties_of_append`: what a reading
  leaves when the filters were registered in another order, or others after them.
- Theorem `ClassDecl.getProperties_union`: what it leaves for two reasons at once.
- Theorem `ClassDecl.one_conjunctive_filter`: a reading as one filter, and what follows.
- Theorem `ClassDecl.reading_of_watchful_filters`: what filters can do that look at other filters.
-/

namespace ExecContext

namespace ClassDecl

variable {φ : Type} [FilterRule φ]

/-! ## What is admitted -/

theorem admits_append_iff (c : ClassDecl φ) (fs gs : List (Purpose × φ)) (reason : Purpose)
    (name : ByteString) (v : Value) :
    c.Admits (fs ++ gs) reason name v ↔
      c.Admits fs reason name v ∧ c.Admits gs reason name v :=
  List.forall_mem_append

/-- The order of filters does not matter. -/
theorem admits_iff_of_perm (c : ClassDecl φ) {fs gs : List (Purpose × φ)} (h : fs.Perm gs)
    (reason : Purpose) (name : ByteString) (v : Value) :
    c.Admits fs reason name v ↔ c.Admits gs reason name v := by
  simp only [Admits, h.mem_iff]

/-- For two reasons at once the filters of both have a say. -/
theorem admits_union_iff (c : ClassDecl φ) (fs : List (Purpose × φ)) (r s : Purpose)
    (name : ByteString) (v : Value) :
    c.Admits fs (r.union s) name v ↔ c.Admits fs r name v ∧ c.Admits fs s name v := by
  simp only [Admits, Purpose.sharesBit_union_iff, or_imp, forall_and]

/-- The filters of `c` that match the reason say of the entries of a table the same whether they are
asked about `c` or about `d`. -/
def SameVerdicts (c d : ClassDecl φ) (p : PropertyTable) (reason : Purpose) : Prop :=
  ∀ f ∈ c.filters, f.1.SharesBit reason → ∀ e ∈ p.entries,
    FilterRule.keeps f.2 d e.1 e.2 = FilterRule.keeps f.2 c e.1 e.2

theorem SameVerdicts.admits_iff {c d : ClassDecl φ} {p : PropertyTable} {reason : Purpose}
    (h : c.SameVerdicts d p reason) {e : ByteString × Value} (he : e ∈ p.entries) :
    d.Admits c.filters reason e.1 e.2 ↔ c.Admits c.filters reason e.1 e.2 := by
  constructor
  · intro hd f hf hshares
    rw [← h f hf hshares e he]
    exact hd f hf hshares
  · intro hc f hf hshares
    rw [h f hf hshares e he]
    exact hc f hf hshares

/-! ## One filter -/

/-- A reading restricts the table to what all matching filters keep. -/
theorem getProperties_eq (c : ClassDecl φ) (p : PropertyTable) (reason : Purpose) :
    c.getProperties p reason = p.filter fun name v => c.Admits c.filters reason name v :=
  c.table_readThrough c.filters p reason

/-- The order of the passes does not matter, -/
theorem table_readThrough_of_perm (c : ClassDecl φ) {fs : List (Purpose × φ)}
    (h : fs.Perm c.filters) (p : PropertyTable) (reason : Purpose) :
    (c.readThrough fs p reason).table = c.getProperties p reason := by
  rw [table_readThrough, getProperties_eq]
  refine Table.filter_congr fun e _ => ?_
  rw [decide_eq_decide, admits_iff_of_perm c h]

/-- and further passes leave what they keep of the rest. -/
theorem table_readThrough_append (c : ClassDecl φ) (fs more : List (Purpose × φ))
    (p : PropertyTable) (reason : Purpose) :
    (c.readThrough (fs ++ more) p reason).table =
      (c.readThrough fs p reason).table.filter fun name v => c.Admits more reason name v := by
  rw [table_readThrough, table_readThrough, Table.filter_filter]
  refine Table.filter_congr fun e _ => ?_
  rw [← Bool.decide_and, decide_eq_decide, admits_append_iff]

/-- Filters that say the same of two classes leave the same for both. -/
theorem SameVerdicts.table_readThrough {c d : ClassDecl φ} {p : PropertyTable} {reason : Purpose}
    (h : c.SameVerdicts d p reason) :
    (d.readThrough c.filters p reason).table = c.getProperties p reason := by
  rw [ClassDecl.table_readThrough, getProperties_eq]
  refine Table.filter_congr fun e he => ?_
  rw [decide_eq_decide, h.admits_iff he]

/-- The order of registration does not matter to filters that say the same, -/
theorem getProperties_of_perm {c d : ClassDecl φ} (h : d.filters.Perm c.filters)
    {p : PropertyTable} {reason : Purpose} (same : c.SameVerdicts d p reason) :
    d.getProperties p reason = c.getProperties p reason := by
  rw [← d.table_readThrough_of_perm h.symm, same.table_readThrough]

/-- and filters registered after them leave what they keep of the rest. -/
theorem getProperties_of_append {c d : ClassDecl φ} {more : List (Purpose × φ)}
    (h : d.filters = c.filters ++ more) {p : PropertyTable} {reason : Purpose}
    (same : c.SameVerdicts d p reason) :
    d.getProperties p reason =
      (c.getProperties p reason).filter fun name v => d.Admits more reason name v := by
  rw [getProperties, read_eq_readThrough, h, table_readThrough_append, same.table_readThrough]

/-- Reading for two reasons at once is reading for one and then for the other. -/
theorem getProperties_union (c : ClassDecl φ) (p : PropertyTable) (r s : Purpose) :
    c.getProperties p (r.union s) = c.getProperties (c.getProperties p r) s := by
  rw [getProperties_eq, getProperties_eq c p, getProperties_eq, Table.filter_filter]
  refine Table.filter_congr fun e _ => ?_
  rw [← Bool.decide_and, decide_eq_decide, admits_union_iff]

/-- Without a matching filter a table is shown as it is. -/
theorem getProperties_of_unmatched {c : ClassDecl φ} {reason : Purpose}
    (h : ∀ f ∈ c.filters, ¬ f.1.SharesBit reason) (p : PropertyTable) :
    c.getProperties p reason = p := by
  rw [getProperties_eq]
  refine Table.filter_eq_self fun e _ => ?_
  rw [decide_eq_true_eq]
  intro f hf hshares
  exact absurd hshares (h f hf)

/-! ## The laws of reading -/

/-- Reading a table through the filters of a class is one conjunctive filter. -/
structure ReadsAsOneFilter (c : ClassDecl φ) (p : PropertyTable) : Prop where
  /-- The entries that satisfy every filter whose purpose shares a bit with the reason are left,
  in their order and with their values. -/
  entries : ∀ reason, (c.getProperties p reason).entries =
    p.entries.filter fun e => c.Admits c.filters reason e.1 e.2
  /-- The filters may be registered in any order in which those that match say the same. -/
  registeredInAnyOrder : ∀ reason (d : ClassDecl φ), d.filters.Perm c.filters →
    c.SameVerdicts d p reason → d.getProperties p reason = c.getProperties p reason
  /-- Reading twice for one reason is reading once, -/
  again : ∀ reason, c.getProperties (c.getProperties p reason) reason = c.getProperties p reason
  /-- and for two at once it is reading for one after the other, in either order. -/
  union : ∀ r s, c.getProperties p (r.union s) = c.getProperties (c.getProperties p r) s ∧
    c.getProperties p (r.union s) = c.getProperties (c.getProperties p s) r
  /-- One more filter, of which those before it take no notice, can only remove entries, -/
  oneFilterMore : ∀ reason purpose f, c.SameVerdicts (c.addFilter purpose f) p reason →
    ((c.addFilter purpose f).getProperties p reason).entries.Sublist
      (c.getProperties p reason).entries
  /-- and so can any further bits of the reason. -/
  furtherBits : ∀ r s, (c.getProperties p (r.union s)).entries.Sublist (c.getProperties p r).entries
  /-- Where no filter matches, the table is left as it is. -/
  unmatched : ∀ reason, (∀ f ∈ c.filters, ¬ f.1.SharesBit reason) → c.getProperties p reason = p
  emptyReason : c.getProperties p .empty = p
  emptyPurposes : (∀ f ∈ c.filters, f.1 = .empty) → ∀ reason, c.getProperties p reason = p

/-- Every class reads every table as one conjunctive filter. -/
theorem one_conjunctive_filter (c : ClassDecl φ) (p : PropertyTable) : c.ReadsAsOneFilter p where
  entries reason := by
    rw [getProperties_eq]
    rfl
  registeredInAnyOrder _ _ h same := getProperties_of_perm h same
  again reason := by
    have hself : reason.union reason = reason := by simp [Purpose.union]
    rw [← getProperties_union, hself]
  union r s := by
    have hcomm : r.union s = s.union r := by simp [Purpose.union, UInt32.or_comm]
    exact ⟨c.getProperties_union p r s, by rw [hcomm, getProperties_union]⟩
  oneFilterMore reason purpose f same := by
    rw [getProperties_of_append rfl same]
    exact List.filter_sublist
  furtherBits r s := by
    rw [getProperties_union, getProperties_eq]
    exact List.filter_sublist
  unmatched reason h := getProperties_of_unmatched h p
  emptyReason := getProperties_of_unmatched (fun f _ => f.1.not_sharesBit_empty) p
  emptyPurposes h reason := by
    apply getProperties_of_unmatched
    intro f hf
    rw [h f hf]
    exact reason.not_empty_sharesBit

/-- No stock filter looks at the registered filters, so that stock filters say the same of any two
classes that are alike in everything else. -/
theorem sameVerdicts_withFilters (c : ClassDecl StockFilter) (fs : List (Purpose × StockFilter))
    (p : PropertyTable) (reason : Purpose) : c.SameVerdicts (c.withFilters fs) p reason := by
  rintro ⟨purpose, f⟩ _ _ e _
  cases f <;> rfl

/-- Filters for known, unknown and no purposes leave the same in the other order, and less with one
more filter. -/
theorem one_conjunctive_filter_reordered :
    let hides : PropertyDecl := { visibility := .ownClass }
    let c : ClassDecl StockFilter :=
      { name := [80], properties := .ofList [([120], hides)]
        filters := [(⟨1⟩, .hidePrivate), (⟨0x80000004⟩, .hideNull), (.empty, .dropAll),
          (⟨2⟩, .hideZero), (⟨0x80000001⟩, .hideClassName)] }
    let d := c.withFilters c.filters.reverse
    let more := c.addFilter ⟨0xC0000000⟩ .hideZero
    let p : PropertyTable :=
      .ofList [([120], .int 1), ([121], .int 0), ([80], .int 2), ([122], .null), ([123], .int 3)]
    d.getProperties p ⟨0x80000000⟩ = c.getProperties p ⟨0x80000000⟩ ∧
      (c.getProperties p ⟨0x80000000⟩).names = [[120], [121], [123]] ∧
      (more.getProperties p ⟨0x80000000⟩).entries.Sublist
        (c.getProperties p ⟨0x80000000⟩).entries ∧
      (more.getProperties p ⟨0x80000000⟩).names = [[120], [123]] := by
  intro hides c d more p
  have hperm : d.filters.Perm c.filters := c.filters.reverse_perm
  have hother : c.SameVerdicts d p ⟨0x80000000⟩ :=
    c.sameVerdicts_withFilters c.filters.reverse p ⟨0x80000000⟩
  have hmore : c.SameVerdicts more p ⟨0x80000000⟩ :=
    c.sameVerdicts_withFilters (c.filters ++ [(⟨0xC0000000⟩, .hideZero)]) p ⟨0x80000000⟩
  exact ⟨(one_conjunctive_filter c p).registeredInAnyOrder ⟨0x80000000⟩ d hperm hother, by decide,
    (one_conjunctive_filter c p).oneFilterMore ⟨0x80000000⟩ ⟨0xC0000000⟩ .hideZero hmore,
    by decide⟩

end ClassDecl

/-! ## Filters that look at filters -/

/-- Filters of which some go by the filters of the class that they are asked about. -/
inductive WatchfulFilter where
  | keepAll
  | dropAll
  /-- Keep what a reading of the class for the reason hides. -/
  | hiddenFor (reason : Purpose)
  /-- Keep everything if the filter that was registered first is for this purpose. -/
  | ifFirstIsFor (purpose : Purpose)
  deriving DecidableEq

namespace WatchfulFilter

/-- What the filters say that do not look at others.  Readings on which the other filters rely are
made by this rule. -/
@[reducible]
def plainRule : FilterRule WatchfulFilter :=
  ⟨fun f _ _ _ => f != .dropAll⟩

/-- Whether a filter keeps a property of an instance of the class. -/
def keeps : WatchfulFilter → ClassDecl WatchfulFilter → ByteString → Value → Bool
  | .keepAll, _, _, _ => true
  | .dropAll, _, _, _ => false
  | .hiddenFor reason, c, name, v =>
    (@ClassDecl.getProperties _ plainRule c (.ofList [(name, v)]) reason).isEmpty
  | .ifFirstIsFor purpose, c, _, _ => (c.filters.head?.map Prod.fst) == some purpose

instance : FilterRule WatchfulFilter :=
  ⟨keeps⟩

end WatchfulFilter

/-- Where a filter keeps what another reading hides, a filter that is registered for that other
reading adds an entry; and where one goes by the first registration, the other order of the same
filters leaves another table. -/
theorem ClassDecl.reading_of_watchful_filters :
    let p : PropertyTable := .ofList [([120], .int 1)]
    let c : ClassDecl WatchfulFilter := { name := [80], filters := [(⟨1⟩, .hiddenFor ⟨2⟩)] }
    let more := c.addFilter ⟨2⟩ .dropAll
    let d : ClassDecl WatchfulFilter :=
      { name := [80], filters := [(⟨1⟩, .ifFirstIsFor ⟨1⟩), (⟨2⟩, .keepAll)] }
    let other := d.withFilters d.filters.reverse
    (∀ e ∈ [c, more], FilterRule.keeps (.hiddenFor ⟨2⟩ : WatchfulFilter) e [120] (.int 1) =
      (e.getProperties p ⟨2⟩).isEmpty) ∧
    (c.getProperties p ⟨1⟩).entries = [] ∧
    (more.getProperties p ⟨1⟩).entries = [([120], .int 1)] ∧
    ¬ (more.getProperties p ⟨1⟩).entries.Sublist (c.getProperties p ⟨1⟩).entries ∧
    other.filters.Perm d.filters ∧ other.getProperties p ⟨1⟩ ≠ d.getProperties p ⟨1⟩ := by
  decide

end ExecContext
