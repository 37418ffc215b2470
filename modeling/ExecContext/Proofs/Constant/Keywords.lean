import ExecContext.Proofs.Constant.Meaning

/-!
# Keywords in every case

A name that spells a keyword in some case is found by comparing it with the spellings, one after
another.  Folding the name and looking for the spelling that it then is finds the same: names
fold alike exactly if they agree letter by letter, and the spellings are folded already.  Since
they differ from one another, the order in which they are tried does not matter.

Main results:

- Theorem `Keyword.parse_eq_some_iff_lower`: the keyword that a name spells is told by folding.
- Theorem `Keyword.find?_eq_parse`: the spellings may be tried in any order.
- Theorem `Keyword.foldings_agree`: the two ways of removing case agree.
- Theorem `Keyword.value_of_name_without_keyword`: the value of a keyword may also be stored under
  a name that spells none.
-/

namespace ExecContext

/-! ## Spellings -/

namespace Keyword

open ByteString (SameUpToCase)

/-- The keyword as text. -/
def text : Keyword → String
  | .null => "null"
  | .false => "false"
  | .true => "true"

theorem spelling_eq_ofString (k : Keyword) : k.spelling = ByteString.ofString k.text := by
  cases k <;> decide

/-- Spellings consist of small letters. -/
theorem isLetter_of_mem_spelling {k : Keyword} {b : UInt8} (h : b ∈ k.spelling) :
    0x61 ≤ b ∧ b ≤ 0x7A := by
  have all : k.spelling.all (fun b => 0x61 ≤ b && b ≤ 0x7A) = Bool.true := by
    cases k <;> rfl
  have hb := List.all_eq_true.mp all b h
  rwa [Bool.and_eq_true, decide_eq_true_eq, decide_eq_true_eq] at hb

/-- Spellings are folded already. -/
theorem lower_spelling (k : Keyword) : k.spelling.lower = k.spelling := by
  cases k <;> decide

/-- The keyword that a name spells is told by folding the name. -/
theorem parse_eq_some_iff_lower (name : ByteString) (k : Keyword) :
    parse name = some k ↔ name.lower = k.spelling := by
  rw [parse_eq_some_iff, ← ByteString.lower_eq_lower_iff, lower_spelling]

/-- Names that fold alike spell the same keyword, if any. -/
theorem parse_eq_of_lower_eq {x y : ByteString} (h : x.lower = y.lower) : parse x = parse y := by
  apply Option.ext
  intro k
  rw [parse_eq_some_iff_lower, parse_eq_some_iff_lower, h]

/-- No name agrees with two keywords. -/
theorem eq_of_equalsIgnoringCase {name : ByteString} {k l : Keyword}
    (hk : name.equalsIgnoringCase k.spelling = Bool.true)
    (hl : name.equalsIgnoringCase l.spelling = Bool.true) : k = l := by
  rw [← parse_eq_some_iff] at hk hl
  exact Option.some.inj (hk.symm.trans hl)

/-- Wherever all keywords are tried, in whatever order, the one is found that the name spells. -/
theorem find?_eq_parse (name : ByteString) {ks : List Keyword} (hks : ∀ k, k ∈ ks) :
    ks.find? (fun k => name.equalsIgnoringCase k.spelling) = parse name := by
  cases hfound : ks.find? fun k => name.equalsIgnoringCase k.spelling with
  | none =>
    rw [List.find?_eq_none] at hfound
    symm
    rw [parse_eq_none_iff]
    intro k
    exact Bool.eq_false_iff.mpr (hfound k (hks k))
  | some k =>
    symm
    rw [parse_eq_some_iff]
    exact List.find?_some (p := fun k : Keyword => name.equalsIgnoringCase k.spelling) hfound

/-- No two keywords have one value. -/
theorem value_inj {k l : Keyword} : k.value = l.value ↔ k = l := by
  cases k <;> cases l <;> simp [value]

/-- The names that spell a keyword have its letters, each small or capital, and nothing else. -/
theorem parse_eq_some_iff_forall (name : ByteString) (k : Keyword) :
    parse name = some k ↔
      name.length = k.spelling.length ∧
        ∀ (i : Nat) (hn : i < name.length) (hk : i < k.spelling.length),
          name[i] = k.spelling[i] ∨ name[i] = k.spelling[i] - 0x20 := by
  rw [parse_eq_some_iff, ← ByteString.lower_eq_lower_iff, ByteString.lower_eq_lower_iff_forall]
  have hsmall : ∀ (i : Nat) (hk : i < k.spelling.length),
      0x61 ≤ k.spelling[i] ∧ k.spelling[i] ≤ 0x7A := by
    intro i hk
    exact isLetter_of_mem_spelling (List.getElem_mem hk)
  apply and_congr_right
  intro _
  constructor
  · intro h i hn hk
    exact (ByteString.sameUpToCase_iff_of_small (hsmall i hk)).mp (h i hn hk)
  · intro h i hn hk
    exact (ByteString.sameUpToCase_iff_of_small (hsmall i hk)).mpr (h i hn hk)

/-- Bytes that are no letters stand in no keyword. -/
theorem isLetter_of_parse_eq_some {name : ByteString} {k : Keyword} (h : parse name = some k)
    {b : UInt8} (hb : b ∈ name) : 0x41 ≤ b ∧ b ≤ 0x5A ∨ 0x61 ≤ b ∧ b ≤ 0x7A := by
  have hmem : ByteString.lowerByte b ∈ k.spelling := by
    rw [← (parse_eq_some_iff_lower name k).mp h]
    exact List.mem_map_of_mem hb
  have hletter := isLetter_of_mem_spelling hmem
  cases hupper : ByteString.isUpperByte b with
  | false =>
    rw [ByteString.lowerByte_of_not_upper hupper] at hletter
    exact Or.inr hletter
  | true =>
    simp only [ByteString.isUpperByte, Bool.and_eq_true, decide_eq_true_eq] at hupper
    exact Or.inl hupper

end Keyword

/-! ## Fetching keywords -/

namespace ConstantTable

/-- A fetch gives the value of a keyword if the name spells it, or if it spells none and that value
is stored under the name. -/
theorem resolve_eq_some_value_iff (t : ConstantTable) (name : ByteString) (k : Keyword) :
    t.resolve name = some k.value ↔
      Keyword.parse name = some k ∨
        Keyword.parse name = none ∧ t.stored.get? name = some k.value := by
  cases hp : Keyword.parse name with
  | none => simp [resolve_of_not_keyword t hp]
  | some l =>
    rw [resolve_of_keyword t hp]
    simp [Keyword.value_inj]

/-- The names that mean a keyword in every table are those that spell it. -/
theorem forall_resolve_eq_some_value_iff (name : ByteString) (k : Keyword) :
    (∀ t : ConstantTable, t.resolve name = some k.value) ↔ Keyword.parse name = some k := by
  constructor
  · intro h
    rcases (resolve_eq_some_value_iff empty name k).mp (h empty) with hp | ⟨-, hstored⟩
    · exact hp
    · cases hstored
  · intro hp t
    exact resolve_of_keyword t hp

end ConstantTable

/-! ## The two ways of removing case -/

namespace Keyword

open ByteString (SameUpToCase)

/-- Folding a name and comparing names up to case agree on it. -/
structure FoldingsAgree (x : ByteString) : Prop where
  /-- The keywords are three words, which stand for null and the truth values. -/
  words : [Keyword.null, .false, .true].map (fun k => (k.text, k.value)) =
    [("null", .null), ("false", .bool Bool.false), ("true", .bool Bool.true)]
  /-- A name folds like another exactly if they have one length and agree byte by byte, -/
  foldsAlike_iff : ∀ y : ByteString, x.lower = y.lower ↔
    x.length = y.length ∧
      ∀ (i : Nat) (hx : i < x.length) (hy : i < y.length), SameUpToCase x[i] y[i]
  /-- which is how they are compared. -/
  foldsAlike_iff_equals : ∀ y : ByteString, x.lower = y.lower ↔ x.equalsIgnoringCase y = Bool.true
  /-- Folding again does nothing. -/
  again : x.lower.lower = x.lower
  /-- Folding keeps the length, and every byte that is no capital. -/
  length : x.lower.length = x.length
  byte : ∀ (i : Nat) (hl : i < x.lower.length) (hx : i < x.length),
    x.lower[i] = if 0x41 ≤ x[i] ∧ x[i] ≤ 0x5A then x[i] + 0x20 else x[i]
  /-- The name spells a keyword exactly if it folds to the keyword's text, -/
  parse_iff : ∀ k, parse x = some k ↔ x.lower = ByteString.ofString k.text
  /-- so names that fold alike spell the same, -/
  parse_eq : ∀ y : ByteString, x.lower = y.lower → parse x = parse y
  /-- no name agrees with two keywords, -/
  atMostOne : ∀ k l : Keyword, x.equalsIgnoringCase k.spelling = Bool.true →
    x.equalsIgnoringCase l.spelling = Bool.true → k = l
  /-- and they may be tried in any order. -/
  anyOrder : ∀ ks : List Keyword, ks.Perm [.null, .false, .true] →
    ks.find? (fun k => x.equalsIgnoringCase k.spelling) = parse x
  /-- The names that spell a keyword have its letters, each small or capital, and no byte else. -/
  letters : ∀ k, parse x = some k ↔
    x.length = k.spelling.length ∧
      ∀ (i : Nat) (hx : i < x.length) (hk : i < k.spelling.length),
        x[i] = k.spelling[i] ∨ x[i] = k.spelling[i] - 0x20
  onlyLetters : ∀ k, parse x = some k → ∀ b ∈ x, 0x41 ≤ b ∧ b ≤ 0x5A ∨ 0x61 ≤ b ∧ b ≤ 0x7A
  /-- Just these names mean the keyword in every table. -/
  fetch_iff : ∀ k, (∀ t : ConstantTable, t.resolve x = some k.value) ↔ parse x = some k
  /-- In any one table its value is fetched besides from an entry for a name that spells none. -/
  fetchIn_iff : ∀ k (t : ConstantTable), t.resolve x = some k.value ↔
    parse x = some k ∨ parse x = none ∧ t.stored.get? x = some k.value

/-- On every name the two agree. -/
theorem foldings_agree (x : ByteString) : FoldingsAgree x where
  words := rfl
  foldsAlike_iff := ByteString.lower_eq_lower_iff_forall x
  foldsAlike_iff_equals := ByteString.lower_eq_lower_iff x
  again := ByteString.lower_lower x
  length := ByteString.length_lower x
  byte := ByteString.getElem_lower x
  parse_iff := by
    intro k
    rw [parse_eq_some_iff_lower, spelling_eq_ofString]
  parse_eq := by
    intro y h
    exact parse_eq_of_lower_eq h
  atMostOne := by
    intro k l hk hl
    exact eq_of_equalsIgnoringCase hk hl
  anyOrder := by
    intro ks hperm
    apply find?_eq_parse
    intro k
    rw [hperm.mem_iff]
    cases k <;> decide
  letters := parse_eq_some_iff_forall x
  onlyLetters := by
    intro k h b hb
    exact isLetter_of_parse_eq_some h hb
  fetch_iff := ConstantTable.forall_resolve_eq_some_value_iff x
  fetchIn_iff := by
    intro k t
    exact t.resolve_eq_some_value_iff x k

/-- A long s is no s. -/
example : parse (ByteString.ofString "falſe") = none := by decide

/-- A name that spells no keyword fetches the value of one if a program stored it there, so that a
table does not tell by its values alone which names spell keywords. -/
theorem value_of_name_without_keyword :
    parse [0x58] = none ∧ ∃ t : ConstantTable,
      ConstantTable.empty.declare [0x58] .null = .ok t ∧ t.resolve [0x58] = some .null ∧
        ¬ (t.resolve [0x58] = some Keyword.null.value ↔ parse [0x58] = some .null) := by
  have hparse : parse [0x58] = none := by decide
  have hfetched : ConstantTable.resolve ⟨.ofList [([0x58], .null)]⟩ [0x58] = some .null := by
    decide
  refine ⟨hparse, ⟨.ofList [([0x58], .null)]⟩, by rfl, hfetched, ?_⟩
  intro h
  have hspelled : parse [0x58] = some .null := h.mp hfetched
  rw [hparse] at hspelled
  cases hspelled

end Keyword

end ExecContext
