import ExecContext.Proofs.ByteString.Case
import ExecContext.Proofs.Run.LastWrite
import ExecContext.Proofs.Run.View
import ExecContext.Proofs.Symbol.Effects
import ExecContext.Proofs.Table.Names

/-!
# Kinds of symbols

A registry keeps functions and classes apart, each kind in a table of its own.  What a name finds
there, which names are listed and which steps may be left out of account follows alike for both,
from how the steps of one kind act on its table.

Main results:

- Theorem `SymbolKind.cell`: how steps change what a name finds.
- Theorem `SymbolKind.mem_names_run`: the folded names after a run.
- Theorem `SymbolKind.get?_run_eq_none_iff`: what a name finds nothing after.
- Theorem `SymbolKind.answer_run_filter`: steps about the kind answer as if there were no others.
-/

namespace ExecContext

open Registry (symbolStep)

variable {φ α : Type} [FilterRule φ]

/-- A kind of symbols: the table that a registry keeps of them, and how steps act on it. -/
structure SymbolKind (φ α : Type) [FilterRule φ] where
  name : α → ByteString
  table : Registry φ → Table α
  /-- The step that declares a symbol. -/
  declare : α → SymbolStep φ
  /-- The symbol that a step declares under a spelling of a name. -/
  under? : ByteString → SymbolStep φ → Option α
  /-- The folded name of the symbol that a step declares. -/
  folded? : SymbolStep φ → Option ByteString
  /-- The change that a step makes to a symbol in its place, and the spelling that finds it. -/
  edit? : SymbolStep φ → Option (ByteString × (α → α))
  /-- Whether a step is about symbols of the kind only. -/
  concerns : SymbolStep φ → Bool
  under?_declare : ∀ key a,
    under? key (declare a) = if key.equalsIgnoringCase (name a) then some a else none
  folded?_declare : ∀ a, folded? (declare a) = some (name a).lower
  edit?_declare : ∀ a, edit? (declare a) = none
  /-- A step declares a symbol of the kind or none at all. -/
  declares_or : ∀ i, (∃ a, i = declare a) ∨ folded? i = none ∧ ∀ key, under? key i = none
  table_empty : table .empty = .empty
  table_declare : ∀ r a,
    table (r.symbolStep (declare a)).state = (table r).insert (name a).lower a
  /-- A step that declares none changes one in its place or leaves the table alone. -/
  table_edit : ∀ r i, folded? i = none → table (r.symbolStep i).state =
    (edit? i).elim (table r) fun e => (table r).modify e.1.lower e.2
  /-- Steps about other symbols leave the table alone, -/
  edit?_of_not_concerned : ∀ i, concerns i = false → folded? i = none ∧ edit? i = none
  /-- and steps about the kind go by the table alone. -/
  answer_congr : ∀ {r q : Registry φ}, table r = table q → ∀ i, concerns i = true →
    (r.symbolStep i).answer = (q.symbolStep i).answer

namespace SymbolKind

variable (k : SymbolKind φ α)

/-! ## What steps declare -/

/-- The folded names that steps declare are those of the symbols they declare. -/
theorem mem_filterMap_folded? (is : List (SymbolStep φ)) (key : ByteString) :
    key ∈ is.filterMap k.folded? ↔ ∃ a, k.declare a ∈ is ∧ (k.name a).lower = key := by
  rw [List.mem_filterMap]
  constructor
  · rintro ⟨i, hi, hkey⟩
    rcases k.declares_or i with ⟨a, rfl⟩ | ⟨hnone, -⟩
    · rw [folded?_declare] at hkey
      exact ⟨a, hi, Option.some.inj hkey⟩
    · rw [hnone] at hkey
      cases hkey
  · rintro ⟨a, ha, rfl⟩
    exact ⟨k.declare a, ha, k.folded?_declare a⟩

/-- A folded name is not among them exactly if nothing is declared under a spelling of the name. -/
theorem not_mem_filterMap_folded? (is : List (SymbolStep φ)) (name : ByteString) :
    name.lower ∉ is.filterMap k.folded? ↔
      ∀ a, k.declare a ∈ is → name.equalsIgnoringCase (k.name a) = false := by
  rw [mem_filterMap_folded?]
  simp only [not_exists, not_and, ← Bool.not_eq_true, ← ByteString.lower_eq_lower_iff,
    eq_comm (a := name.lower)]

/-! ## Other symbols -/

/-- Steps on registries with the same table of the kind leave the same table. -/
theorem table_step_congr {r q : Registry φ} (h : k.table r = k.table q) (i : SymbolStep φ) :
    k.table (r.symbolStep i).state = k.table (q.symbolStep i).state := by
  rcases k.declares_or i with ⟨a, rfl⟩ | ⟨hnone, -⟩
  · rw [table_declare, table_declare, h]
  · rw [k.table_edit r i hnone, k.table_edit q i hnone, h]

/-- The table after a run is that after the steps about the kind. -/
theorem table_run_filter (r : Registry φ) (is : List (SymbolStep φ)) :
    k.table (run symbolStep r is).2 = k.table (run symbolStep r (is.filter k.concerns)).2 := by
  apply view_run_filter _ _ rfl
  · intro q i hi
    rcases k.edit?_of_not_concerned i hi with ⟨hnone, hedit⟩
    rw [k.table_edit q i hnone, hedit]
    rfl
  · intro p q i h _
    exact k.table_step_congr h i

/-- After a run, steps about the kind answer as if there had been no others. -/
theorem answer_run_filter (r : Registry φ) (is : List (SymbolStep φ)) {i : SymbolStep φ}
    (hi : k.concerns i = true) :
    ((run symbolStep r is).2.symbolStep i).answer =
      ((run symbolStep r (is.filter k.concerns)).2.symbolStep i).answer :=
  k.answer_congr (k.table_run_filter r is) i hi

/-! ## What a name finds -/

/-- What a step makes of the symbol of a name: it changes it, if it finds it. -/
def amends (key : ByteString) (i : SymbolStep φ) (a : α) : α :=
  (k.edit? i).elim a fun e => if key.equalsIgnoringCase e.1 then e.2 a else a

theorem amends_of_none {key : ByteString} {i : SymbolStep φ} (h : k.edit? i = none) :
    k.amends key i = id := by
  funext a
  rw [amends, h]
  rfl

theorem amends_of_some {key : ByteString} {i : SymbolStep φ} {e : ByteString × (α → α)}
    (h : k.edit? i = some e) :
    k.amends key i = if key.equalsIgnoringCase e.1 then e.2 else id := by
  funext a
  rw [amends, h, Option.elim_some]
  split <;> rfl

/-- A declaration under a spelling of a name writes what the name finds; a change to what such a
spelling finds amends it. -/
theorem cell (key : ByteString) :
    ActsOnCell symbolStep (fun r => (k.table r).get? key.lower) (k.under? key)
      (k.amends key) := by
  constructor
  intro r i
  rcases k.declares_or i with ⟨a, rfl⟩ | ⟨hnone, hunder⟩
  · rw [table_declare, Table.get?_insert, under?_declare, k.amends_of_none (k.edit?_declare a),
      Option.map_id, id_eq]
    simp only [ByteString.lower_eq_lower_iff]
    split <;> simp
  · rw [k.table_edit r i hnone, hunder, Option.none_or]
    cases hedit : k.edit? i with
    | none =>
      rw [k.amends_of_none hedit, Option.map_id]
      rfl
    | some e =>
      simp only [Option.elim_some, Table.get?_modify, ByteString.lower_eq_lower_iff,
        k.amends_of_some hedit]
      split
      · rfl
      · rw [Option.map_id, id_eq]

/-! ## Names -/

/-- A step adds the folded name of what it declares. -/
theorem mem_names_step (r : Registry φ) (i : SymbolStep φ) (key : ByteString) :
    key ∈ (k.table (r.symbolStep i).state).names ↔
      key ∈ (k.table r).names ∨ k.folded? i = some key := by
  rcases k.declares_or i with ⟨a, rfl⟩ | ⟨hnone, -⟩
  · rw [table_declare, Table.mem_names_insert, folded?_declare, Option.some.injEq]
    exact or_congr_right eq_comm
  · rw [k.table_edit r i hnone, hnone]
    cases k.edit? i <;> simp

/-- After a run of the empty registry the names are the folded names that were declared. -/
theorem mem_names_run (is : List (SymbolStep φ)) (key : ByteString) :
    key ∈ (k.table (run symbolStep .empty is).2).names ↔ key ∈ is.filterMap k.folded? := by
  have hgrows : ∀ r : Registry φ, key ∈ (k.table (run symbolStep r is).2).names ↔
      key ∈ (k.table r).names ∨ key ∈ is.filterMap k.folded? := by
    induction is with
    | nil => simp
    | cons i is ih =>
      intro r
      rw [run_cons, ih, mem_names_step, or_assoc, List.filterMap_cons]
      cases k.folded? i with
      | none => simp
      | some name => simp [eq_comm]
  rw [hgrows, k.table_empty, Table.names_empty]
  simp

/-- A name finds nothing after it exactly if nothing was declared under one of its spellings. -/
theorem get?_run_eq_none_iff (is : List (SymbolStep φ)) (name : ByteString) :
    (k.table (run symbolStep .empty is).2).get? name.lower = none ↔
      ∀ a, k.declare a ∈ is → name.equalsIgnoringCase (k.name a) = false := by
  rw [← not_mem_filterMap_folded?, ← k.mem_names_run, ← Table.contains_eq_true_iff, Table.contains,
    Option.not_isSome_iff_eq_none]

end SymbolKind

end ExecContext
