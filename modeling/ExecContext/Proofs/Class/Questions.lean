import ExecContext.Class.Filter
import ExecContext.Proofs.Class.Conjunction
import Mathlib.Data.List.Sigma

/-!
# The questions of a reading

A reading asks each matching filter, in the order of registration, about each entry that the
matching filters before it have kept, in the order of the table.  The log tells the reading apart
from those that would leave the same table in another way: it is complete, in that the answers to
the logged questions alone decide the reading, and it can become another when two filters change
places.  The table stays the same then, unless one of the filters goes by the places of others.

Main results:

- Theorem `ClassDecl.mem_calls_read_iff`: which questions are asked.
- Theorem `ClassDecl.nodup_calls_read`: none is asked twice.
- Theorem `ClassDecl.read_congr`: the answers to the questions decide the reading.
- Theorem `ClassDecl.asks_in_turn`: the log of a reading, and how it differs from the table.
- Theorem `ClassDecl.swapped_watchful_filters`: the table can be another when filters that go by the
  places of others change places.
-/

namespace ExecContext

namespace ClassDecl

variable {φ : Type} [FilterRule φ]

/-! ## Which questions are asked -/

theorem mem_questions_iff (c : ClassDecl φ) (fs : List (Purpose × φ)) (p : PropertyTable)
    (reason : Purpose) (r : (Purpose × φ) × Nat) (q : FilterCall φ) :
    q ∈ c.questions fs p reason r ↔
      r.1.1.SharesBit reason ∧ r.1.2 = q.filter ∧ r.2 = q.registration ∧
        (q.name, q.value) ∈ p.entries ∧
          c.Admits (fs.take q.registration) reason q.name q.value := by
  rw [questions]
  split
  · rename_i hshares
    rw [List.mem_map]
    constructor
    · rintro ⟨e, he, rfl⟩
      rcases List.mem_filter.mp he with ⟨hentry, hadmits⟩
      exact ⟨hshares, rfl, rfl, hentry, of_decide_eq_true hadmits⟩
    · rintro ⟨-, hfilter, hplace, hentry, hadmits⟩
      refine ⟨(q.name, q.value), List.mem_filter.mpr ⟨hentry, ?_⟩, ?_⟩
      · rw [hplace]
        exact decide_eq_true hadmits
      · rw [hfilter, hplace]
  · rename_i hshares
    constructor
    · intro hq
      cases hq
    · rintro ⟨hshares', -⟩
      exact absurd hshares' hshares

/-- A reading asks a registered filter about an entry of the table exactly if its purpose shares a
bit with the reason and the matching filters before it keep the entry. -/
theorem mem_calls_read_iff (c : ClassDecl φ) (p : PropertyTable) (reason : Purpose)
    (q : FilterCall φ) :
    q ∈ (c.read p reason).calls ↔
      (∃ purpose, c.filters[q.registration]? = some (purpose, q.filter) ∧
        purpose.SharesBit reason) ∧
      (q.name, q.value) ∈ p.entries ∧
        c.Admits (c.filters.take q.registration) reason q.name q.value := by
  rw [read_eq_readThrough, calls_readThrough, List.mem_flatMap]
  constructor
  · rintro ⟨⟨⟨purpose, f⟩, k⟩, hr, hq⟩
    rcases (mem_questions_iff c _ p reason _ q).mp hq with ⟨hshares, rfl, rfl, hasked⟩
    exact ⟨⟨purpose, List.mem_zipIdx_iff_getElem?.mp hr, hshares⟩, hasked⟩
  · rintro ⟨⟨purpose, hplace, hshares⟩, hasked⟩
    exact ⟨((purpose, q.filter), q.registration), List.mem_zipIdx_iff_getElem?.mpr hplace,
      (mem_questions_iff c _ p reason _ q).mpr ⟨hshares, rfl, rfl, hasked⟩⟩

/-- No registration is asked twice about a name. -/
theorem nodup_calls_read (c : ClassDecl φ) (p : PropertyTable) (reason : Purpose) :
    ((c.read p reason).calls.map fun q => (q.registration, q.name)).Nodup := by
  rw [read_eq_readThrough, calls_readThrough, List.map_flatMap, List.nodup_flatMap]
  constructor
  · rintro ⟨⟨purpose, f⟩, k⟩ -
    rw [questions]
    split
    · -- Within one pass the names are those of the table, each once.
      rw [List.map_map]
      have hnames : ((p.entries.filter fun e =>
          c.Admits (c.filters.take k) reason e.1 e.2).map Prod.fst).Nodup :=
        (List.filter_sublist.map _).nodup p.distinct
      refine List.Nodup.of_map Prod.snd ?_
      rw [List.map_map]
      exact hnames
    · exact List.nodup_nil
  · -- Different passes differ in the registration.
    have hplaces : (c.filters.zipIdx.map Prod.snd).Nodup := List.nodup_zipIdx_map_snd c.filters
    refine (List.pairwise_map.mp hplaces).imp fun hne key hr hs => ?_
    rcases List.mem_map.mp hr with ⟨q, hq, rfl⟩
    rcases List.mem_map.mp hs with ⟨q', hq', hkey⟩
    have hplace := ((mem_questions_iff c _ p reason _ q).mp hq).2.2.1
    have hplace' := ((mem_questions_iff c _ p reason _ q').mp hq').2.2.1
    exact hne (hplace.trans ((congrArg Prod.fst hkey).symm.trans hplace'.symm))

/-! ## What the answers decide -/

/-- What was asked stays in the log. -/
theorem subset_calls_foldl_consult (c : ClassDecl φ) (passes : List (Nat × φ)) (r : Reading φ) :
    r.calls ⊆ (passes.foldl c.consult r).calls := by
  induction passes generalizing r with
  | nil => exact List.Subset.refl _
  | cons f passes ih =>
    refine List.Subset.trans ?_ (ih (c.consult r f))
    rw [calls_consult]
    exact List.subset_append_left _ _

/-- Filters that give the answers of the log lead through the same passes. -/
theorem foldl_consult_congr (keeps : φ → ClassDecl φ → ByteString → Value → Bool)
    (c : ClassDecl φ) (passes : List (Nat × φ)) (r : Reading φ)
    (same : ∀ q ∈ (passes.foldl c.consult r).calls,
      keeps q.filter c q.name q.value = FilterRule.keeps q.filter c q.name q.value) :
    passes.foldl (@consult φ ⟨keeps⟩ c) r = passes.foldl c.consult r := by
  induction passes generalizing r with
  | nil => rfl
  | cons f passes ih =>
    have hfirst : @consult φ ⟨keeps⟩ c r f = c.consult r f := by
      have htable : r.table.filter (fun name v => keeps f.2 c name v) =
          r.table.filter fun name v => FilterRule.keeps f.2 c name v := by
        refine Table.filter_congr fun e he => ?_
        -- The pass asks about every entry that it finds, and the log keeps its questions.
        refine same ⟨f.1, f.2, e.1, e.2⟩ (c.subset_calls_foldl_consult passes _ ?_)
        rw [calls_consult]
        exact List.mem_append_right _ (List.mem_map.mpr ⟨e, he, rfl⟩)
      change Reading.mk (r.table.filter fun name v => keeps f.2 c name v) _ = c.consult r f
      rw [htable]
      rfl
    rw [List.foldl_cons, List.foldl_cons, hfirst]
    exact ih _ same

/-- The answers to the questions of a reading decide it. -/
theorem read_congr (keeps : φ → ClassDecl φ → ByteString → Value → Bool) (c : ClassDecl φ)
    (p : PropertyTable) (reason : Purpose)
    (same : ∀ q ∈ (c.read p reason).calls,
      keeps q.filter c q.name q.value = FilterRule.keeps q.filter c q.name q.value) :
    @read φ ⟨keeps⟩ c p reason = c.read p reason :=
  foldl_consult_congr keeps c (c.matchingFilters reason) { table := p } same

/-! ## Filters that change places -/

theorem perm_swap_apart {α : Type} (x y : α) (before between after : List α) :
    (before ++ y :: (between ++ x :: after)).Perm (before ++ x :: (between ++ y :: after)) := by
  have hto : (between ++ x :: after).Perm (x :: (between ++ after)) := List.perm_middle
  have hfrom : (y :: (between ++ after)).Perm (between ++ y :: after) := List.perm_middle.symm
  exact ((hto.cons y).trans ((List.Perm.swap x y _).trans (hfrom.cons x))).append_left before

/-- The log of a reading. -/
structure AsksInTurn (c : ClassDecl φ) (p : PropertyTable) (reason : Purpose) : Prop where
  /-- The registrations are gone through in order; each that matches is asked, in the order of the
  table, about the entries that all matching ones before it keep. -/
  calls : (c.read p reason).calls = c.filters.zipIdx.flatMap (c.questions c.filters p reason)
  /-- A question is asked exactly if it is to the filter of a matching registration, about an entry
  of the table which no matching filter before it has dropped. -/
  asked_iff : ∀ q, q ∈ (c.read p reason).calls ↔
    (∃ purpose, c.filters[q.registration]? = some (purpose, q.filter) ∧
      purpose.SharesBit reason) ∧
    (q.name, q.value) ∈ p.entries ∧
      c.Admits (c.filters.take q.registration) reason q.name q.value
  /-- No registration is asked twice about a name. -/
  once : ((c.read p reason).calls.map fun q => (q.registration, q.name)).Nodup
  /-- Nothing is asked but about the class as it is, and nothing that is not in the log: filters
  that answer the logged questions alike, whatever else they say, give the same reading. -/
  decided : ∀ keeps : φ → ClassDecl φ → ByteString → Value → Bool,
    (∀ q ∈ (c.read p reason).calls,
      keeps q.filter c q.name q.value = FilterRule.keeps q.filter c q.name q.value) →
    @read φ ⟨keeps⟩ c p reason = c.read p reason
  /-- Filters that are registered in each other's place leave the same table if those that match
  say the same of its entries in either order. -/
  registeredSwapped : ∀ (d : ClassDecl φ) before f between g after,
    c.filters = before ++ f :: (between ++ g :: after) →
    d.filters = before ++ g :: (between ++ f :: after) → c.SameVerdicts d p reason →
    (d.read p reason).table = (c.read p reason).table

/-- A reading asks its questions in turn; and where matching filters change places, it may ask more
or fewer of them though it leaves the same table. -/
theorem asks_in_turn :
    (∀ (c : ClassDecl φ) (p : PropertyTable) (reason : Purpose), c.AsksInTurn p reason) ∧
    ∃ (c : ClassDecl StockFilter) (f g : Purpose × StockFilter) (p : PropertyTable)
      (reason : Purpose), f.1.SharesBit reason ∧ g.1.SharesBit reason ∧
        ((c.withFilters [f, g]).read p reason).table =
          ((c.withFilters [g, f]).read p reason).table ∧
        ((c.withFilters [f, g]).read p reason).calls.length ≠
          ((c.withFilters [g, f]).read p reason).calls.length := by
  constructor
  · intro c p reason
    exact
      { calls := c.calls_readThrough c.filters p reason
        asked_iff := c.mem_calls_read_iff p reason
        once := c.nodup_calls_read p reason
        decided := fun keeps => read_congr keeps c p reason
        registeredSwapped := by
          intro d before f between g after hc hd same
          have hperm : d.filters.Perm c.filters := by
            rw [hc, hd]
            exact perm_swap_apart f g before between after
          exact getProperties_of_perm hperm same }
  · exact ⟨{ name := [80] }, (.debug, .hideNull), (.debug, .keepAll), .ofList [([120], .null)],
      .debug, by decide, by decide, by decide, by decide⟩

/-- A filter that hides nulls and one that hides zeros, with others around them, leave the same in
each other's place; the log is another. -/
theorem asks_in_turn_swapped :
    let c : ClassDecl StockFilter :=
      { name := [80]
        filters := [(⟨2⟩, .dropAll), (⟨1⟩, .hideNull), (⟨4⟩, .keepAll), (⟨3⟩, .hideZero)] }
    let d := c.withFilters [(⟨2⟩, .dropAll), (⟨3⟩, .hideZero), (⟨4⟩, .keepAll), (⟨1⟩, .hideNull)]
    let p : PropertyTable := .ofList [([120], .int 0), ([121], .null), ([122], .int 7)]
    (d.read p .debug).table = (c.read p .debug).table ∧
      (c.read p .debug).table.names = [[122]] ∧
      (c.read p .debug).calls.map (fun q => (q.registration, q.name)) =
        [(1, [120]), (1, [121]), (1, [122]), (3, [120]), (3, [122])] ∧
      (d.read p .debug).calls.map (fun q => (q.registration, q.name)) =
        [(1, [120]), (1, [121]), (1, [122]), (3, [121]), (3, [122])] := by
  intro c d p
  have same : c.SameVerdicts d p .debug :=
    c.sameVerdicts_withFilters d.filters p .debug
  have htable : (d.read p .debug).table = (c.read p .debug).table :=
    (asks_in_turn.1 c p .debug).registeredSwapped d [(⟨2⟩, .dropAll)] (⟨1⟩, .hideNull)
      [(⟨4⟩, .keepAll)] (⟨3⟩, .hideZero) [] rfl rfl same
  exact ⟨htable, by decide, by decide, by decide⟩

/-- A filter that goes by the first registration, and another that matches, leave another table in
each other's place. -/
theorem swapped_watchful_filters :
    let f : Purpose × WatchfulFilter := (⟨1⟩, .ifFirstIsFor ⟨1⟩)
    let g : Purpose × WatchfulFilter := (⟨3⟩, .keepAll)
    let c : ClassDecl WatchfulFilter := { name := [80], filters := [f, g] }
    let d := c.withFilters [g, f]
    let p : PropertyTable := .ofList [([120], .int 1)]
    f.1.SharesBit .debug ∧ g.1.SharesBit .debug ∧
      (c.read p .debug).table.entries = [([120], .int 1)] ∧
      (d.read p .debug).table.entries = [] := by
  decide

end ClassDecl

end ExecContext
