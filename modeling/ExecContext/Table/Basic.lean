import ExecContext.ByteString.Basic

/-!
# Tables

A table holds entries under distinct names, in the order in which the names
were first written.  Writing a name again replaces what it holds and keeps its
place.

Main results:

- Theorem `Table.map_fst_writeEntry`: writing an entry appends its name or keeps
  the names as they are.
- Theorem `Table.ext`: a table is determined by its entries.
-/

namespace ExecContext

/-- Entries under distinct names, in order of first writing. -/
structure Table (α : Type) where
  entries : List (ByteString × α)
  distinct : (entries.map Prod.fst).Nodup
  deriving DecidableEq

namespace Table

variable {α β : Type}

/-- Replaces what the first entry of a name holds, or appends a new entry. -/
def writeEntry (name : ByteString) (a : α) : List (ByteString × α) → List (ByteString × α)
  | [] => [(name, a)]
  | e :: rest => if e.1 = name then (name, a) :: rest else e :: writeEntry name a rest

/-- Writing an entry appends its name if that is new, and else keeps all names
in their places. -/
theorem map_fst_writeEntry (name : ByteString) (a : α) (es : List (ByteString × α)) :
    (writeEntry name a es).map Prod.fst =
      if name ∈ es.map Prod.fst then es.map Prod.fst else es.map Prod.fst ++ [name] := by
  induction es with
  | nil => rfl
  | cons e rest ih =>
    by_cases h : e.1 = name
    · simp [writeEntry, h]
    · have h' : ¬ name = e.1 := fun hn => h hn.symm
      simp only [writeEntry, h, if_false, List.map_cons, List.mem_cons, h', false_or, ih]
      split <;> simp

theorem nodup_writeEntry (name : ByteString) (a : α) {es : List (ByteString × α)}
    (h : (es.map Prod.fst).Nodup) : ((writeEntry name a es).map Prod.fst).Nodup := by
  rw [map_fst_writeEntry]
  split
  · exact h
  · rename_i hn
    rw [List.nodup_append]
    refine ⟨h, by simp, ?_⟩
    intro x hx y hy
    simp only [List.mem_singleton] at hy
    rintro rfl
    exact hn (hy ▸ hx)

/-! ## Reading -/

/-- The table without entries. -/
def empty : Table α :=
  ⟨[], List.nodup_nil⟩

/-- The names, in order. -/
def names (t : Table α) : List ByteString :=
  t.entries.map Prod.fst

/-- The number of entries. -/
def size (t : Table α) : Nat :=
  t.entries.length

/-- Whether the table has no entry. -/
def isEmpty (t : Table α) : Bool :=
  t.entries.isEmpty

/-- What the table holds under a name. -/
def get? (t : Table α) (name : ByteString) : Option α :=
  t.entries.lookup name

/-- Whether the table holds anything under a name. -/
def contains (t : Table α) (name : ByteString) : Bool :=
  (t.get? name).isSome

/-- The names in bytewise order. -/
def sortedNames (t : Table α) : List ByteString :=
  t.names.mergeSort ByteString.le

/-- The entries in bytewise order of their names. -/
def sortedEntries (t : Table α) : List (ByteString × α) :=
  t.entries.mergeSort fun d e => ByteString.le d.1 e.1

/-! ## Writing -/

/-- Holds `a` under the name: in the name's old place if it has one, else at the
end. -/
def insert (t : Table α) (name : ByteString) (a : α) : Table α :=
  ⟨writeEntry name a t.entries, nodup_writeEntry name a t.distinct⟩

/-- Changes what a name holds, if it holds anything. -/
def modify (t : Table α) (name : ByteString) (f : α → α) : Table α where
  entries := t.entries.map fun e => if e.1 = name then (e.1, f e.2) else e
  distinct := by
    have h : (t.entries.map fun e => if e.1 = name then (e.1, f e.2) else e).map Prod.fst =
        t.entries.map Prod.fst := by
      rw [List.map_map]
      refine List.map_congr_left fun e _ => ?_
      simp only [Function.comp_apply]
      split <;> rfl
    rw [h]
    exact t.distinct

/-- The table collected from entries written one after another. -/
def ofList (es : List (ByteString × α)) : Table α :=
  es.foldl (fun t e => t.insert e.1 e.2) empty

/-- The entries that a test accepts, in order. -/
def filter (p : ByteString → α → Bool) (t : Table α) : Table α where
  entries := t.entries.filter fun e => p e.1 e.2
  distinct := (List.filter_sublist.map _).nodup t.distinct

/-- The same names in the same order, with changed contents. -/
def map (f : α → β) (t : Table α) : Table β where
  entries := t.entries.map fun e => (e.1, f e.2)
  distinct := by
    rw [List.map_map]
    exact t.distinct

instance : Inhabited (Table α) :=
  ⟨empty⟩

/-- A table is determined by its entries. -/
@[ext]
theorem ext {t u : Table α} (h : t.entries = u.entries) : t = u := by
  cases t
  cases u
  cases h
  rfl

end Table

end ExecContext
