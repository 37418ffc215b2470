import ExecContext.Class.Basic

/-!
# Reading properties through filters

When an instance is read for a reason, each filter whose purpose meets the
reason goes over the table in its turn: it is asked about every entry that is
left, in order, and the entries it refuses are dropped.  A reading records the
table that remains and every question that was put to a filter.

Main results:

- Theorem `ClassDecl.entries_table_consult`: one pass keeps what its filter keeps.
- Theorem `ClassDecl.calls_consult`: one pass asks about each entry once.
-/

namespace ExecContext

/-- One question put to a filter: the place of the filter's registration in its
class, the filter, and the property it was asked about. -/
structure FilterCall (φ : Type) where
  registration : Nat
  filter : φ
  name : ByteString
  value : Value
  deriving DecidableEq

/-- What a reading leaves of a table, and the questions asked so far. -/
structure Reading (φ : Type) where
  table : PropertyTable
  calls : List (FilterCall φ) := []

namespace ClassDecl

variable {φ : Type}

/-- The filters registered for a purpose that meets the reason, in order, each
with the place of its registration. -/
def matchingFilters (c : ClassDecl φ) (reason : Purpose) : List (Nat × φ) :=
  c.filters.zipIdx.filterMap fun r =>
    if r.1.1.intersects reason then some (r.2, r.1.2) else none

variable [FilterRule φ]

/-- One filter's pass over what is left of a table. -/
def consult (c : ClassDecl φ) (r : Reading φ) (f : Nat × φ) : Reading φ where
  table := r.table.filter fun name v => FilterRule.keeps f.2 c name v
  calls := r.calls ++ r.table.entries.map fun e =>
    { registration := f.1, filter := f.2, name := e.1, value := e.2 }

/-- Reads a table for a reason: every matching filter passes over it in turn. -/
def read (c : ClassDecl φ) (p : PropertyTable) (reason : Purpose) : Reading φ :=
  (c.matchingFilters reason).foldl c.consult { table := p }

/-- The properties of an instance as they are shown for a reason. -/
def getProperties (c : ClassDecl φ) (p : PropertyTable) (reason : Purpose) : PropertyTable :=
  (c.read p reason).table

/-! ## One pass -/

@[simp]
theorem entries_table_consult (c : ClassDecl φ) (r : Reading φ) (f : Nat × φ) :
    (c.consult r f).table.entries =
      r.table.entries.filter fun e => FilterRule.keeps f.2 c e.1 e.2 :=
  rfl

@[simp]
theorem calls_consult (c : ClassDecl φ) (r : Reading φ) (f : Nat × φ) :
    (c.consult r f).calls = r.calls ++ r.table.entries.map fun e =>
      { registration := f.1, filter := f.2, name := e.1, value := e.2 } :=
  rfl

end ClassDecl

end ExecContext
