import ExecContext.Class.Reading
import ExecContext.Table.Lemmas
import Mathlib.Data.List.Basic
import Mathlib.Data.List.Induction

/-!
# Passes of filters over a table

A reading is a sequence of passes, one for each filter that was registered for a purpose that
shares a bit with the reason.  The passes leave the entries that all their filters keep, and each
filter is asked about the entries that the passes before its own have left.

Main results:

- Theorem `Purpose.intersects_iff`: purposes meet if some bit is set in both.
- Theorem `ClassDecl.table_readThrough`: what a reading leaves of a table.
- Theorem `ClassDecl.calls_readThrough`: which questions it asks.
-/

namespace ExecContext

/-! ## Bits of purposes -/

namespace Purpose

/-- Some bit is set in both purposes. -/
def SharesBit (p q : Purpose) : Prop :=
  ∃ i, p.bits.toNat.testBit i = true ∧ q.bits.toNat.testBit i = true

/-- Purposes meet exactly if they share a bit. -/
theorem intersects_iff (p q : Purpose) : p.intersects q = true ↔ p.SharesBit q := by
  have hzero : p.bits &&& q.bits = 0 ↔ p.bits.toNat &&& q.bits.toNat = 0 := by
    rw [← UInt32.toNat_inj, UInt32.toNat_and]
    rfl
  have hmeets : p.intersects q = true ↔ p.bits.toNat &&& q.bits.toNat ≠ 0 := by
    rw [intersects, bne_iff_ne, ne_eq, hzero]
  rw [hmeets]
  constructor
  · intro h
    rcases Nat.exists_testBit_of_ne_zero h with ⟨i, hi⟩
    rw [Nat.testBit_and, Bool.and_eq_true] at hi
    exact ⟨i, hi⟩
  · rintro ⟨i, hp, hq⟩ h
    have hi : (p.bits.toNat &&& q.bits.toNat).testBit i = true := by
      rw [Nat.testBit_and, hp, hq]
      rfl
    rw [h, Nat.zero_testBit] at hi
    contradiction

instance (p q : Purpose) : Decidable (p.SharesBit q) :=
  decidable_of_iff (p.intersects q = true) (intersects_iff p q)

/-- A purpose shares a bit with either of two exactly if it shares one with their union. -/
theorem sharesBit_union_iff (p q r : Purpose) :
    p.SharesBit (q.union r) ↔ p.SharesBit q ∨ p.SharesBit r := by
  have hbit : ∀ i, (q.union r).bits.toNat.testBit i =
      (q.bits.toNat.testBit i || r.bits.toNat.testBit i) := by
    intro i
    rw [union, UInt32.toNat_or, Nat.testBit_or]
  constructor
  · rintro ⟨i, hp, hi⟩
    rw [hbit, Bool.or_eq_true] at hi
    exact hi.imp (fun hq => ⟨i, hp, hq⟩) fun hr => ⟨i, hp, hr⟩
  · rintro (⟨i, hp, hq⟩ | ⟨i, hp, hr⟩)
    · exact ⟨i, hp, by rw [hbit, hq, Bool.true_or]⟩
    · exact ⟨i, hp, by rw [hbit, hr, Bool.or_true]⟩

/-- The empty purpose shares no bit, -/
theorem not_sharesBit_empty (p : Purpose) : ¬ p.SharesBit empty := by
  rw [← intersects_iff, intersects_empty]
  exact Bool.false_ne_true

/-- and nothing shares one with it. -/
theorem not_empty_sharesBit (p : Purpose) : ¬ empty.SharesBit p := by
  rw [← intersects_iff, intersects_comm, intersects_empty]
  exact Bool.false_ne_true

end Purpose

namespace ClassDecl

variable {φ : Type}

/-- The class with other filters. -/
def withFilters (c : ClassDecl φ) (fs : List (Purpose × φ)) : ClassDecl φ :=
  { c with filters := fs }

/-! ## Matching filters -/

/-- The matching filters are those that were registered for a purpose that shares a bit with the
reason, each with its place. -/
theorem mem_matchingFilters_iff (c : ClassDecl φ) (reason : Purpose) (f : Nat × φ) :
    f ∈ c.matchingFilters reason ↔
      ∃ purpose, c.filters[f.1]? = some (purpose, f.2) ∧ purpose.SharesBit reason := by
  rcases f with ⟨k, f⟩
  rw [matchingFilters, List.mem_filterMap]
  constructor
  · rintro ⟨⟨⟨purpose, g⟩, j⟩, hmem, hmatch⟩
    by_cases hmeets : purpose.intersects reason = true
    · simp only [hmeets, if_true, Option.some.injEq, Prod.mk.injEq] at hmatch
      rcases hmatch with ⟨rfl, rfl⟩
      exact ⟨purpose, List.mem_zipIdx_iff_getElem?.mp hmem, (Purpose.intersects_iff _ _).mp hmeets⟩
    · simp [hmeets] at hmatch
  · rintro ⟨purpose, hplace, hshares⟩
    refine ⟨((purpose, f), k), List.mem_zipIdx_iff_getElem?.mpr hplace, ?_⟩
    rw [if_pos ((Purpose.intersects_iff _ _).mpr hshares)]

/-- One more registration adds its filter, if that matches, after all others. -/
theorem matchingFilters_concat (c : ClassDecl φ) (fs : List (Purpose × φ)) (f : Purpose × φ)
    (reason : Purpose) :
    (c.withFilters (fs ++ [f])).matchingFilters reason =
      (c.withFilters fs).matchingFilters reason ++
        if f.1.SharesBit reason then [(fs.length, f.2)] else [] := by
  have hmatch : ([f].zipIdx fs.length).filterMap
      (fun r => if r.1.1.intersects reason then some (r.2, r.1.2) else none) =
        if f.1.SharesBit reason then [(fs.length, f.2)] else [] := by
    by_cases hshares : f.1.SharesBit reason
    · simp [(Purpose.intersects_iff _ _).mpr hshares, hshares]
    · have hmeets : f.1.intersects reason = false := by
        rw [← Bool.not_eq_true, Purpose.intersects_iff]
        exact hshares
      simp [hmeets, hshares]
  simp only [matchingFilters, withFilters, List.zipIdx_append, List.filterMap_append, Nat.zero_add,
    hmatch]

variable [FilterRule φ]

/-! ## What is left -/

/-- All filters of a list that were registered for a purpose that shares a bit with the reason
keep the property. -/
def Admits (c : ClassDecl φ) (fs : List (Purpose × φ)) (reason : Purpose) (name : ByteString)
    (v : Value) : Prop :=
  ∀ f ∈ fs, f.1.SharesBit reason → FilterRule.keeps f.2 c name v = true

instance (c : ClassDecl φ) (fs : List (Purpose × φ)) (reason : Purpose) (name : ByteString)
    (v : Value) : Decidable (c.Admits fs reason name v) :=
  inferInstanceAs (Decidable (∀ f ∈ fs, _ → _))

/-- Passes leave the entries that all their filters keep. -/
theorem entries_foldl_consult (c : ClassDecl φ) (passes : List (Nat × φ)) (r : Reading φ) :
    (passes.foldl c.consult r).table.entries =
      r.table.entries.filter fun e => passes.all fun f => FilterRule.keeps f.2 c e.1 e.2 := by
  induction passes generalizing r with
  | nil => exact (List.filter_eq_self.mpr fun _ _ => rfl).symm
  | cons f passes ih =>
    rw [List.foldl_cons, ih, entries_table_consult, List.filter_filter]
    refine List.filter_congr fun e _ => ?_
    rw [List.all_cons, Bool.and_comm]

/-- Reads a table through the given registrations, all asked about the class as it is. -/
def readThrough (c : ClassDecl φ) (fs : List (Purpose × φ)) (p : PropertyTable)
    (reason : Purpose) : Reading φ :=
  ((c.withFilters fs).matchingFilters reason).foldl c.consult { table := p }

/-- A class is read through its own filters. -/
theorem read_eq_readThrough (c : ClassDecl φ) (p : PropertyTable) (reason : Purpose) :
    c.read p reason = c.readThrough c.filters p reason :=
  rfl

/-- A reading leaves the entries that all matching filters keep. -/
theorem table_readThrough (c : ClassDecl φ) (fs : List (Purpose × φ)) (p : PropertyTable)
    (reason : Purpose) :
    (c.readThrough fs p reason).table =
      p.filter fun name v => c.Admits fs reason name v := by
  apply Table.ext
  rw [readThrough, entries_foldl_consult, Table.entries_filter]
  refine List.filter_congr fun e _ => ?_
  rw [Bool.eq_iff_iff, List.all_eq_true, decide_eq_true_eq]
  constructor
  · intro h f hf hshares
    rcases List.mem_iff_getElem?.mp hf with ⟨k, hk⟩
    exact h (k, f.2) ((mem_matchingFilters_iff _ reason _).mpr ⟨f.1, hk, hshares⟩)
  · intro h f hf
    rcases (mem_matchingFilters_iff _ reason f).mp hf with ⟨purpose, hplace, hshares⟩
    exact h (purpose, f.2) (List.mem_of_getElem? hplace) hshares

/-! ## What is asked -/

/-- The questions put to the filter of a registration among others: none if it was registered for
a purpose that shares no bit with the reason, else one about each entry that all matching filters
before it keep. -/
def questions (c : ClassDecl φ) (fs : List (Purpose × φ)) (p : PropertyTable) (reason : Purpose)
    (r : (Purpose × φ) × Nat) : List (FilterCall φ) :=
  if r.1.1.SharesBit reason then
    (p.entries.filter fun e => c.Admits (fs.take r.2) reason e.1 e.2).map fun e =>
      { registration := r.2, filter := r.1.2, name := e.1, value := e.2 }
  else []

/-- A filter is asked the same whatever is registered after it. -/
theorem questions_append (c : ClassDecl φ) (fs later : List (Purpose × φ)) (p : PropertyTable)
    (reason : Purpose) {r : (Purpose × φ) × Nat} (hr : r ∈ fs.zipIdx) :
    c.questions (fs ++ later) p reason r = c.questions fs p reason r := by
  have hplace : r.2 < fs.length := (List.mem_zipIdx' (x := r.1) (i := r.2) hr).1
  rw [questions, questions, List.take_append_of_le_length (Nat.le_of_lt hplace)]

/-- The matching filters are asked their questions in the order of their registration. -/
theorem calls_readThrough (c : ClassDecl φ) (fs : List (Purpose × φ)) (p : PropertyTable)
    (reason : Purpose) :
    (c.readThrough fs p reason).calls = fs.zipIdx.flatMap (c.questions fs p reason) := by
  induction fs using List.reverseRecOn with
  | nil => rfl
  | append_singleton fs f ih =>
    have hearlier : fs.zipIdx.flatMap (c.questions (fs ++ [f]) p reason) =
        fs.zipIdx.flatMap (c.questions fs p reason) :=
      List.flatMap_congr fun r hr => c.questions_append fs [f] p reason hr
    have hlast : c.questions (fs ++ [f]) p reason (f, fs.length) =
        if f.1.SharesBit reason then
          (c.readThrough fs p reason).table.entries.map fun e =>
            { registration := fs.length, filter := f.2, name := e.1, value := e.2 }
        else [] := by
      rw [questions, List.take_left, table_readThrough]
      rfl
    rw [List.zipIdx_append, List.flatMap_append, hearlier, ← ih, Nat.zero_add,
      List.zipIdx_singleton, List.flatMap_singleton, hlast, readThrough, matchingFilters_concat,
      List.foldl_append]
    split
    · rfl
    · exact (List.append_nil _).symm

end ClassDecl

end ExecContext
