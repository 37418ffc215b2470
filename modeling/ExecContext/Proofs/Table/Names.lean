import ExecContext.Table.Lemmas
import Mathlib.Data.Finset.Card

/-!
# Names of tables

The names of a table in bytewise order are its names, each once; their number is the size
of the table.

Main results:

- Theorems `Table.mem_sortedNames` and `Table.nodup_sortedNames`: sorting keeps the names.
- Theorem `Table.size_eq_card`: the size is the number of distinct names.
- Theorem `Table.sortedNames_eq_of_mem_names_iff`: the order of writing does not show.
- Theorem `Table.mem_names_foldl_insert`: the names after entries were written.
-/

namespace ExecContext

/-! ## Bytewise order -/

namespace ByteString

variable {x y z : ByteString}

theorem le_trans (hxy : x.le y = true) (hyz : y.le z = true) : x.le z = true := by
  simp only [le, decide_eq_true_eq] at *
  exact List.le_trans hxy hyz

theorem le_antisymm (hxy : x.le y = true) (hyx : y.le x = true) : x = y := by
  simp only [le, decide_eq_true_eq] at *
  exact List.le_antisymm hxy hyx

theorem le_total (x y : ByteString) : (x.le y || y.le x) = true := by
  simp only [le, Bool.or_eq_true, decide_eq_true_eq]
  exact List.le_total x y

end ByteString

/-! ## Names -/

namespace Table

variable {α β : Type}

theorem mem_sortedNames (t : Table α) (name : ByteString) :
    name ∈ t.sortedNames ↔ name ∈ t.names :=
  List.mem_mergeSort

theorem nodup_sortedNames (t : Table α) : t.sortedNames.Nodup :=
  (List.mergeSort_perm t.names ByteString.le).nodup_iff.mpr t.nodup_names

/-- A table is as large as any list of its names has distinct members. -/
theorem size_eq_card {t : Table α} {names : List ByteString}
    (h : ∀ name, name ∈ t.names ↔ name ∈ names) : t.size = names.toFinset.card := by
  have hsame : t.names.toFinset = names.toFinset := by
    ext name
    rw [List.mem_toFinset, List.mem_toFinset, h]
  rw [← hsame, List.toFinset_card_of_nodup t.nodup_names, length_names]

/-- Tables with the same names are equally large. -/
theorem size_eq_of_mem_names_iff {t : Table α} {u : Table β}
    (h : ∀ name, name ∈ t.names ↔ name ∈ u.names) : t.size = u.size := by
  have hperm : t.names.Perm u.names :=
    (List.perm_ext_iff_of_nodup t.nodup_names u.nodup_names).mpr h
  rw [← length_names t, ← length_names u, hperm.length_eq]

/-- Tables with the same names list them alike. -/
theorem sortedNames_eq_of_mem_names_iff {t : Table α} {u : Table β}
    (h : ∀ name, name ∈ t.names ↔ name ∈ u.names) : t.sortedNames = u.sortedNames := by
  have hperm : t.sortedNames.Perm u.sortedNames := by
    rw [List.perm_ext_iff_of_nodup t.nodup_sortedNames u.nodup_sortedNames]
    intro name
    rw [mem_sortedNames, mem_sortedNames, h]
  have sorted : ∀ names : List ByteString,
      (names.mergeSort ByteString.le).Pairwise fun a b => ByteString.le a b = true :=
    List.pairwise_mergeSort (fun _ _ _ => ByteString.le_trans) ByteString.le_total
  exact hperm.eq_of_pairwise (fun _ _ _ _ => ByteString.le_antisymm) (sorted _) (sorted _)

theorem mem_names_insert (t : Table α) (name other : ByteString) (a : α) :
    other ∈ (t.insert name a).names ↔ other ∈ t.names ∨ other = name := by
  rw [names_insert]
  split
  · rename_i hname
    constructor
    · exact Or.inl
    · rintro (hother | rfl)
      · exact hother
      · exact hname
  · rw [List.mem_append, List.mem_singleton]

/-- Entries written one after another add their names. -/
theorem mem_names_foldl_insert (t : Table α) (es : List (ByteString × α)) (name : ByteString) :
    name ∈ (es.foldl (fun t e => t.insert e.1 e.2) t).names ↔
      name ∈ t.names ∨ name ∈ es.map Prod.fst := by
  induction es generalizing t with
  | nil => simp
  | cons e es ih =>
    rw [List.foldl_cons, ih, mem_names_insert, List.map_cons, List.mem_cons, or_assoc]

end Table

end ExecContext
