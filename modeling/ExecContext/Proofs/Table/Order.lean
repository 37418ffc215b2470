import ExecContext.Table.Lemmas
import Mathlib.Data.List.Induction
import Mathlib.Data.List.Nodup

/-!
# Order of tables

A table lists its names in the order of their first writing, and its entries are told by that
order and by what the names hold.

Main results:

- Theorem `Table.entries_filter_eq`: the entries of a restricted table, name by name.
- Theorem `Table.ofList_entries`: collecting the entries of a table gives the table.
- Theorem `Table.names_filter_eq`: a restricted table keeps its names in their order.
- Theorem `Table.entries_ofList_eq`: the entries of a collected table, name by name.
- Theorem `Table.get?_eq_of_perm`: tables with the same entries in any order hold the same.
-/

namespace ExecContext

/-! ## First occurrences -/

section

variable {α : Type} [BEq α] [LawfulBEq α]

/-- What occurred before is no first occurrence, -/
theorem eraseDups_concat_of_mem {xs : List α} {x : α} (h : x ∈ xs) :
    (xs ++ [x]).eraseDups = xs.eraseDups := by
  simp [List.eraseDups_append, List.removeAll, h]

/-- and what is new is the last one. -/
theorem eraseDups_concat_of_not_mem {xs : List α} {x : α} (h : x ∉ xs) :
    (xs ++ [x]).eraseDups = xs.eraseDups ++ [x] := by
  simp [List.eraseDups_append, List.eraseDups_cons, List.removeAll, h]

/-- Where nothing occurs twice all occurrences are first ones. -/
theorem eraseDups_eq_self {xs : List α} (h : xs.Nodup) : xs.eraseDups = xs := by
  induction xs using List.reverseRecOn with
  | nil => rfl
  | append_singleton xs x ih =>
    rw [← List.concat_eq_append, List.nodup_concat] at h
    rw [eraseDups_concat_of_not_mem h.1, ih h.2]

end

namespace Table

/-! ## Entries by their names -/

variable {α : Type}

/-- The entries of a restricted table are those of its names that hold what passes the test. -/
theorem entries_filter_eq (p : ByteString → α → Bool) (t : Table α) :
    (t.filter p).entries = t.names.filterMap fun name =>
      ((t.get? name).filter (p name)).map fun a => (name, a) := by
  have hentry : ∀ e ∈ t.entries, ((t.get? e.1).filter (p e.1)).map (fun a => (e.1, a)) =
      if p e.1 e.2 then some e else none := by
    intro e he
    rw [(mem_entries_iff t e.1 e.2).mp he, Option.filter_some]
    split <;> rfl
  rw [entries_filter, names, List.filterMap_map, ← List.filterMap_eq_filter]
  exact List.filterMap_congr fun e he => (hentry e he).symm

/-- The names of a restricted table stand in the order of the table. -/
theorem names_filter_eq (p : ByteString → α → Bool) (t : Table α) :
    (t.filter p).names = t.names.filter fun name => (t.filter p).contains name := by
  have hkept : ∀ e ∈ t.entries, (t.filter p).contains e.1 = p e.1 e.2 := by
    intro e he
    rw [contains, get?_filter, (mem_entries_iff t e.1 e.2).mp he, Option.filter_some]
    cases p e.1 e.2 <;> rfl
  rw [names, names, entries_filter, List.filter_map]
  congr 1
  exact List.filter_congr fun e he => (hkept e he).symm

/-- Writing a new name appends its entry. -/
theorem writeEntry_of_not_mem {name : ByteString} (a : α) {es : List (ByteString × α)}
    (h : name ∉ es.map Prod.fst) : writeEntry name a es = es ++ [(name, a)] := by
  induction es with
  | nil => rfl
  | cons e rest ih =>
    rw [List.map_cons, List.mem_cons, not_or] at h
    rw [writeEntry, if_neg (Ne.symm h.1), ih h.2, List.cons_append]

theorem entries_ofList {es : List (ByteString × α)} (distinct : (es.map Prod.fst).Nodup) :
    (ofList es).entries = es := by
  induction es using List.reverseRecOn with
  | nil => rfl
  | append_singleton es e ih =>
    rw [List.map_append, List.map_singleton, ← List.concat_eq_append, List.nodup_concat] at distinct
    rw [ofList_concat]
    change writeEntry e.1 e.2 (ofList es).entries = es ++ [e]
    rw [ih distinct.2, writeEntry_of_not_mem e.2 distinct.1]

/-- Collecting the entries of a table gives the table. -/
theorem ofList_entries (t : Table α) : ofList t.entries = t :=
  ext (entries_ofList t.distinct)

/-- A table lists what its names hold. -/
theorem entries_eq (t : Table α) :
    t.entries = t.names.filterMap fun name => (t.get? name).map fun a => (name, a) := by
  have hentry : ∀ e ∈ t.entries, (t.get? e.1).map (fun a => (e.1, a)) = some e := by
    intro e he
    rw [(mem_entries_iff t e.1 e.2).mp he, Option.map_some]
  rw [names, List.filterMap_map]
  exact ((List.filterMap_congr hentry).trans List.filterMap_some).symm

/-- A collected table has its names in the order of their first entries. -/
theorem names_ofList (es : List (ByteString × α)) :
    (ofList es).names = (es.map Prod.fst).eraseDups := by
  induction es using List.reverseRecOn with
  | nil => rfl
  | append_singleton es e ih =>
    have hmem : e.1 ∈ (ofList es).names ↔ e.1 ∈ es.map Prod.fst := by
      rw [ih, List.mem_eraseDups]
    rw [ofList_concat, List.map_append, List.map_singleton]
    by_cases hname : e.1 ∈ (ofList es).names
    · rw [names_insert_of_mem e.2 hname, eraseDups_concat_of_mem (hmem.mp hname), ih]
    · rw [names_insert_of_not_mem e.2 hname, eraseDups_concat_of_not_mem (mt hmem.mpr hname), ih]

/-- A collected table holds the last entry of each name, in the place of the first. -/
theorem entries_ofList_eq (es : List (ByteString × α)) :
    (ofList es).entries = (es.map Prod.fst).eraseDups.filterMap fun name =>
      (es.reverse.lookup name).map fun a => (name, a) := by
  rw [entries_eq, names_ofList]
  simp only [get?_ofList]

/-! ## Entries in another order -/

/-- Tables with the same entries in any order hold the same. -/
theorem get?_eq_of_perm {t u : Table α} (h : t.entries.Perm u.entries) (name : ByteString) :
    t.get? name = u.get? name := by
  apply Option.ext
  intro a
  rw [← mem_entries_iff, ← mem_entries_iff, h.mem_iff]

end Table

end ExecContext
