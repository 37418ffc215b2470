import ExecContext.ByteString.Utf8
import ExecContext.Constant.Error
import ExecContext.Constant.Keyword
import ExecContext.Table.Basic

/-!
# Constant tables

A constant table stores values under exact names.  The keywords shadow it: a
lookup tries them first, and no declaration may take one of their names.  A
declared constant is never written again; only the host may replace an entry.

Main results:

- Theorems `ConstantTable.declare_of_keyword`, `ConstantTable.declare_of_stored`
  and `ConstantTable.declare_of_new`: the three ways in which a declaration ends.
-/

namespace ExecContext

/-- The constants known by name. -/
structure ConstantTable where
  stored : Table Value := .empty
  deriving DecidableEq

namespace ConstantTable

/-- The table without constants. -/
def empty : ConstantTable :=
  {}

/-- What a name means: the keyword's value, else the stored one. -/
def resolve (t : ConstantTable) (name : ByteString) : Option Value :=
  match Keyword.parse name with
  | some k => some k.value
  | none => t.stored.get? name

/-- Whether a name means anything. -/
def isDefined (t : ConstantTable) (name : ByteString) : Bool :=
  (Keyword.parse name).isSome || t.stored.contains name

/-- Stores a constant under a new name.  A keyword is refused as reserved, even if
the host has stored an entry under it; a name in use is refused as redefined. -/
def declare (t : ConstantTable) (name : ByteString) (v : Value) :
    Except ConstantError ConstantTable :=
  if (Keyword.parse name).isSome then .error (.reserved name.display)
  else if t.stored.contains name then .error (.redefined name.display)
  else .ok ⟨t.stored.insert name v⟩

/-- Stores a constant of the host's, over any earlier one. -/
def insertBuiltin (t : ConstantTable) (name : ByteString) (v : Value) : ConstantTable :=
  ⟨t.stored.insert name v⟩

/-- Stores the host's constants one after another. -/
def insertBuiltins (t : ConstantTable) (entries : List (ByteString × Value)) : ConstantTable :=
  entries.foldl (fun t e => t.insertBuiltin e.1 e.2) t

/-- The number of stored constants. -/
def size (t : ConstantTable) : Nat :=
  t.stored.size

/-- Whether no constant is stored. -/
def isEmpty (t : ConstantTable) : Bool :=
  t.stored.isEmpty

/-! ## How a declaration ends -/

theorem declare_of_keyword {t : ConstantTable} {name : ByteString} {k : Keyword} (v : Value)
    (h : Keyword.parse name = some k) :
    t.declare name v = .error (.reserved name.display) := by
  simp [declare, h]

theorem declare_of_stored {t : ConstantTable} {name : ByteString} (v : Value)
    (hk : Keyword.parse name = none) (h : t.stored.contains name = true) :
    t.declare name v = .error (.redefined name.display) := by
  simp [declare, hk, h]

theorem declare_of_new {t : ConstantTable} {name : ByteString} (v : Value)
    (hk : Keyword.parse name = none) (h : t.stored.contains name = false) :
    t.declare name v = .ok ⟨t.stored.insert name v⟩ := by
  simp [declare, hk, h]

end ConstantTable

end ExecContext
