import ExecContext.Class.Property
import ExecContext.Proofs.Table.Names
import ExecContext.Proofs.Table.Order
import ExecContext.Proofs.Value.Equality

/-!
# Equality of property tables

Two property tables are compared by their sizes and by one pass over the first.  Since the names of
a table are distinct, this finds any name that only the second has, and so the comparison comes down
to the values that each name holds in the one and in the other.  Their order plays no part, and
equality of tables is symmetric and transitive as that of values is; like that one it is not
reflexive, on account of NaNs.

Main results:

- Theorem `PropertyTable.equals_iff_rel`: equal tables hold equal values, name by name.
- Theorem `PropertyTable.equals_comm` and `PropertyTable.equals_trans`: equality of tables is
  symmetric and transitive.
- Theorem `PropertyTable.equals_self_iff`: which tables equal themselves.
- Theorem `PropertyTable.order_blind_equality`: what collecting keeps, and when collected tables are
  equal.
-/

namespace ExecContext

namespace PropertyTable

/-- What two names hold is equal: both hold nothing, or equal values. -/
abbrev HoldEqual : Option Value → Option Value → Prop :=
  Option.Rel fun v w => v.equals w = true

theorem holdEqual_symm {v w : Option Value} (h : HoldEqual v w) : HoldEqual w v := by
  cases h with
  | none => exact .none
  | some hvw => exact .some (by rw [Value.equals_comm, hvw])

/-- Two names hold equal values exactly if both or neither hold one, and those that they hold are
equal. -/
theorem holdEqual_iff (v w : Option Value) :
    HoldEqual v w ↔ v.isSome = w.isSome ∧ ∀ a b, v = some a → w = some b → a.equals b = true := by
  cases v <;> cases w <;> simp

/-! ## Name by name -/

/-- The names of a table are those that hold a value. -/
theorem mem_names_iff_isSome (p : PropertyTable) (name : ByteString) :
    name ∈ p.names ↔ (p.get? name).isSome = true :=
  (Table.contains_eq_true_iff p name).symm

/-- The comparison asks for equal sizes, and for an equal value under each name of the first
table. -/
theorem equals_iff_size_eq (p q : PropertyTable) :
    p.equals q = true ↔ p.size = q.size ∧
      ∀ name v, p.get? name = some v → HoldEqual (some v) (q.get? name) := by
  simp only [equals, Bool.and_eq_true, beq_iff_eq, List.all_eq_true, Prod.forall,
    Table.mem_entries_iff]
  refine and_congr_right fun _ => forall_congr' fun name => forall_congr' fun v =>
    imp_congr_right fun _ => ?_
  cases q.get? name <;> simp

/-- Equal tables have the same names: the first has none that the second lacks, and being as large,
has all of them. -/
theorem mem_names_iff_of_equals {p q : PropertyTable} (h : p.equals q = true) (name : ByteString) :
    name ∈ p.names ↔ name ∈ q.names := by
  rcases (equals_iff_size_eq p q).mp h with ⟨hsize, hheld⟩
  have hsubset : p.names ⊆ q.names := by
    intro other hother
    rw [mem_names_iff_isSome] at hother ⊢
    rcases Option.isSome_iff_exists.mp hother with ⟨v, hv⟩
    rw [← ((holdEqual_iff _ _).mp (hheld other v hv)).1, Option.isSome_some]
  have hlength : q.names.length ≤ p.names.length := by
    rw [Table.length_names, Table.length_names, hsize]
  have hperm : p.names.Perm q.names :=
    (p.nodup_names.subperm hsubset).perm_of_length_le hlength
  exact hperm.mem_iff

/-- Tables are equal exactly if under every name they hold equal values, or both nothing. -/
theorem equals_iff_rel (p q : PropertyTable) :
    p.equals q = true ↔ ∀ name, HoldEqual (p.get? name) (q.get? name) := by
  constructor
  · intro h name
    have hname := mem_names_iff_of_equals h name
    rw [mem_names_iff_isSome, mem_names_iff_isSome, ← Bool.eq_iff_iff] at hname
    refine (holdEqual_iff _ _).mpr ⟨hname, ?_⟩
    intro v w hv hw
    have hequal := ((equals_iff_size_eq p q).mp h).2 name v hv
    rw [hw] at hequal
    cases hequal with
    | some hvw => exact hvw
  · intro h
    have hnames : ∀ name, name ∈ p.names ↔ name ∈ q.names := by
      intro name
      rw [mem_names_iff_isSome, mem_names_iff_isSome, ((holdEqual_iff _ _).mp (h name)).1]
    refine (equals_iff_size_eq p q).mpr ⟨Table.size_eq_of_mem_names_iff hnames, ?_⟩
    intro name v hv
    rw [← hv]
    exact h name

/-- Tables are equal exactly if they have the same names, and hold equal values under each. -/
theorem equals_iff_values (p q : PropertyTable) :
    p.equals q = true ↔ (∀ name, name ∈ p.names ↔ name ∈ q.names) ∧
      ∀ name v w, p.get? name = some v → q.get? name = some w → v.equals w = true := by
  simp only [equals_iff_rel, holdEqual_iff, forall_and, mem_names_iff_isSome, ← Bool.eq_iff_iff]

/-! ## Laws -/

/-- Tables that hold the same compare alike. -/
theorem equals_congr {p p' q q' : PropertyTable} (hp : ∀ name, p'.get? name = p.get? name)
    (hq : ∀ name, q'.get? name = q.get? name) : p'.equals q' = p.equals q := by
  rw [Bool.eq_iff_iff, equals_iff_rel, equals_iff_rel]
  simp only [hp, hq]

theorem equals_comm (p q : PropertyTable) : p.equals q = q.equals p := by
  rw [Bool.eq_iff_iff, equals_iff_rel, equals_iff_rel]
  exact forall_congr' fun name => ⟨holdEqual_symm, holdEqual_symm⟩

theorem equals_trans {p q r : PropertyTable} (hpq : p.equals q = true) (hqr : q.equals r = true) :
    p.equals r = true := by
  rw [equals_iff_rel] at hpq hqr ⊢
  intro name
  have hleft := hpq name
  have hright := hqr name
  generalize p.get? name = u at hleft ⊢
  generalize q.get? name = v at hleft hright
  generalize r.get? name = w at hright ⊢
  cases hleft with
  | none => exact hright
  | some huv =>
    cases hright with
    | some hvw => exact .some (Value.equals_trans huv hvw)

/-- A table equals itself exactly if it holds no NaN. -/
theorem equals_self_iff (p : PropertyTable) :
    p.equals p = true ↔ ∀ e ∈ p.entries, e.2.isNaN = false := by
  simp only [equals_iff_size_eq, true_and, Prod.forall, Table.mem_entries_iff]
  refine forall_congr' fun name => forall_congr' fun v => imp_congr_right fun hv => ?_
  rw [hv]
  simp [Value.equals_self]

/-! ## Collected tables -/

/-- The table has been collected from the entries: it has each name once, in the place of its first
entry and with the value of its last. -/
structure CollectedFrom (p : PropertyTable) (es : List (ByteString × Value)) : Prop where
  names : p.names = (es.map Prod.fst).eraseDups
  once : p.names.Nodup
  values : ∀ name, p.get? name = es.reverse.lookup name
  entries : p.entries = (es.map Prod.fst).eraseDups.filterMap fun name =>
    (es.reverse.lookup name).map fun v => (name, v)

/-- How tables compare. -/
structure ComparedByName (p q r : PropertyTable) : Prop where
  /-- Tables are equal exactly if they have the same names and equal values under each, -/
  equal_iff : p.equals q = true ↔ (∀ name, name ∈ p.names ↔ name ∈ q.names) ∧
    ∀ name v w, p.get? name = some v → q.get? name = some w → v.equals w = true
  /-- in whatever order the one or the other lists its entries. -/
  anyOrder : ∀ p' q' : PropertyTable, p'.entries.Perm p.entries → q'.entries.Perm q.entries →
    p'.equals q' = p.equals q
  symmetric : p.equals q = q.equals p
  transitive : p.equals q = true → q.equals r = true → p.equals r = true
  /-- Only a NaN keeps a table from being equal to itself. -/
  self_iff : p.equals p = true ↔ ∀ e ∈ p.entries, e.2.isNaN = false

theorem collectedFrom_ofList (es : List (ByteString × Value)) : CollectedFrom (.ofList es) es where
  names := Table.names_ofList es
  once := Table.nodup_names _
  values := Table.get?_ofList es
  entries := Table.entries_ofList_eq es

theorem comparedByName (p q r : PropertyTable) : ComparedByName p q r where
  equal_iff := equals_iff_values p q
  anyOrder _ _ hp hq := equals_congr (Table.get?_eq_of_perm hp) (Table.get?_eq_of_perm hq)
  symmetric := equals_comm p q
  transitive := equals_trans
  self_iff := equals_self_iff p

/-- Collecting any entries keeps each name once, in its first place and with its last value, and
equality of the tables so collected is a partial equivalence that does not see their order. -/
theorem order_blind_equality (es fs gs : List (ByteString × Value)) :
    CollectedFrom (.ofList es) es ∧ CollectedFrom (.ofList fs) fs ∧
      ComparedByName (.ofList es) (.ofList fs) (.ofList gs) :=
  ⟨collectedFrom_ofList es, collectedFrom_ofList fs, comparedByName _ _ _⟩

/-- Neither the order of the names nor the sign of a zero tells tables apart. -/
example : PropertyTable.equals
    (.ofList [([120], .int 1), ([121], .float ⟨0⟩), ([120], .null)])
    (.ofList [([121], .float ⟨0x8000000000000000⟩), ([120], .null)]) = true := by
  decide

end PropertyTable

end ExecContext
