import ExecContext.Constant.Table
import ExecContext.Proofs.ByteString.Case
import ExecContext.Proofs.ByteString.Decoding
import ExecContext.Symbol.Registry
import ExecContext.Table.Lemmas

/-!
# How names are shown

Folding changes only bytes that are characters by themselves, in valid text and after a malformed
part alike.  So the decoder reads a folded name as it reads the name, with the letters folded, and
names that a registry takes for one are shown alike up to case.

Main results:

- Theorem `Utf8.decode_lower`: the units of a folded name are the name's, folded.
- Theorem `ByteString.display_lower`: a folded name is shown as the name is, in small letters.
- Theorem `Registry.lookups_agree_iff`: the names that no registry tells apart.
- Theorem `ByteString.shown_lawfully`: the laws of the display text.
-/

namespace ExecContext

open ByteString (lowerByte lowerByte_le_iff lowerByte_of_not_ascii ofString)

/-! ## Reading folded bytes -/

namespace Utf8

/-- A byte and the character that it is are folded alike. -/
theorem toLower_ofNat_byte {b : UInt8} (h : b ≤ 0x7F) :
    (Char.ofNat b.toNat).toLower = Char.ofNat (lowerByte b).toNat := by
  have all : ∀ k : Fin 128, (Char.ofNat k.val).toLower =
      Char.ofNat (lowerByte (UInt8.ofNat k.val)).toNat := by decide
  have hlt : b.toNat < 128 := Nat.lt_succ_of_le (UInt8.le_iff_toNat_le.mp h)
  have hfold := all ⟨b.toNat, hlt⟩
  rwa [UInt8.ofNat_toNat] at hfold

/-- A character past ASCII has no other case. -/
theorem toLower_of_encodeChar {c : Char} {x : ByteString} {b : UInt8} (hx : x ≠ [])
    (h : x ++ [b] = String.utf8EncodeChar c) : c.toLower = c := by
  have hlength := congrArg List.length h
  have hpos := List.length_pos_iff.mpr hx
  rw [String.length_utf8EncodeChar, List.length_append, List.length_singleton] at hlength
  have hlarge : ¬ c.val ≤ 127 := by
    rw [← Char.utf8Size_eq_one_iff]
    omega
  have hupper : ¬ (c.val ≥ 'A'.val ∧ c.val ≤ 'Z'.val) := by
    intro h
    exact hlarge (UInt32.le_trans h.2 (by decide))
  exact dif_neg hupper

/-- A folded first byte does what the byte does, up to case. -/
theorem lead_lowerByte (b : UInt8) :
    lead (lowerByte b) = ((lead b).1.map (Option.map Char.toLower), (lead b).2) := by
  by_cases hb : b ≤ 0x7F
  · have hlead : lead b = ([some (Char.ofNat b.toNat)], .ground) := if_pos hb
    have hfolded : lead (lowerByte b) = ([some (Char.ofNat (lowerByte b).toNat)], .ground) :=
      if_pos ((lowerByte_le_iff b).mpr hb)
    rw [hfolded, hlead, ← toLower_ofNat_byte hb]
    rfl
  · rw [lowerByte_of_not_ascii hb]
    rcases lead_cases b with ⟨hascii, -⟩ | ⟨-, hlead⟩ | ⟨more, scalar, low, high, hlead, -⟩
    · exact absurd hascii hb
    · rw [hlead]
      rfl
    · rw [hlead]
      rfl

/-- The bytes that continue a sequence are past ASCII. -/
theorem Pending.not_ascii {x : ByteString} {more scalar : Nat} {low high : UInt8}
    (h : Pending x more scalar low high) {b : UInt8} (hb : low ≤ b) : ¬ b ≤ 0x7F := by
  have hlow := h.range.1
  simp only [UInt8.le_iff_toNat_le, UInt8.reduceToNat] at *
  omega

/-- A byte continues a sequence exactly if its folded form does. -/
theorem Pending.lowerByte_mem_range_iff {x : ByteString} {more scalar : Nat} {low high : UInt8}
    (h : Pending x more scalar low high) (b : UInt8) :
    low ≤ lowerByte b ∧ lowerByte b ≤ high ↔ low ≤ b ∧ b ≤ high := by
  by_cases hb : b ≤ 0x7F
  · have hfolded := (lowerByte_le_iff b).mpr hb
    constructor
    · intro hrange
      exact absurd hfolded (h.not_ascii hrange.1)
    · intro hrange
      exact absurd hb (h.not_ascii hrange.1)
  · rw [lowerByte_of_not_ascii hb]

/-- From any state a folded byte does what the byte does, up to case: one that continues a sequence
is kept by folding, and any other is read as a first byte. -/
theorem step_lowerByte {x : ByteString} {s : State} (h : Reads x s) (b : UInt8) :
    step s (lowerByte b) = ((step s b).1.map (Option.map Char.toLower), (step s b).2) := by
  cases h with
  | ground => exact lead_lowerByte b
  | @within _ more scalar low high hp =>
    by_cases hb : low ≤ b ∧ b ≤ high
    · rw [lowerByte_of_not_ascii (hp.not_ascii hb.1)]
      cases more with
      | zero =>
        have hchar := hp.encodes b [] hb.1 hb.2 rfl (by simp)
        have hkept := toLower_of_encodeChar hp.ne_nil hchar
        simp only [step, if_pos hb, List.map_cons, List.map_nil, Option.map_some]
        exact congrArg (fun c => ([some c], State.ground)) hkept.symm
      | succ more => simp only [step, if_pos hb, List.map_nil]
    · have hfolded : ¬ (low ≤ lowerByte b ∧ lowerByte b ≤ high) := by
        rwa [hp.lowerByte_mem_range_iff]
      simp only [step, if_neg hb, if_neg hfolded, lead_lowerByte]
      rfl

/-- Reading folded bytes gives the units of the bytes, folded. -/
theorem decodeFrom_lower {x : ByteString} {s : State} (h : Reads x s) (y : ByteString) :
    decodeFrom s y.lower = (decodeFrom s y).map (Option.map Char.toLower) := by
  induction y generalizing x s with
  | nil => cases h <;> rfl
  | cons b y ih =>
    rcases h.exists_step b with ⟨z, hz⟩
    rw [ByteString.lower_cons, decodeFrom, decodeFrom, step_lowerByte h, ih hz, List.map_append]

theorem decode_lower (x : ByteString) :
    decode x.lower = (decode x).map (Option.map Char.toLower) :=
  decodeFrom_lower .ground x

end Utf8

/-! ## Names in errors and in registries -/

/-- A refused declaration is reported with the name as it is shown. -/
theorem ConstantTable.error_of_declare {t : ConstantTable} {name : ByteString} {v : Value}
    {e : ConstantError} (h : t.declare name v = .error e) :
    e = .reserved name.display ∨ e = .redefined name.display := by
  cases hk : Keyword.parse name with
  | some k =>
    rw [declare_of_keyword v hk] at h
    exact Or.inl (Except.error.inj h).symm
  | none =>
    cases hs : t.stored.contains name with
    | true =>
      rw [declare_of_stored v hk hs] at h
      exact Or.inr (Except.error.inj h).symm
    | false =>
      rw [declare_of_new v hk hs] at h
      cases h

namespace Registry

variable {φ : Type}

/-- No registry tells two names apart exactly if they fold alike. -/
theorem lookups_agree_iff (x y : ByteString) :
    (∀ r : Registry φ,
      r.lookupFunction x = r.lookupFunction y ∧ r.lookupClass x = r.lookupClass y) ↔
      x.lower = y.lower := by
  constructor
  · intro h
    -- a registry that holds a class of the one name alone
    let c : ClassDecl φ := { name := x }
    have hfound := (h (empty.declareClass c).state).2
    change ((Table.empty).insert x.lower c).get? x.lower =
      ((Table.empty).insert x.lower c).get? y.lower at hfound
    rw [Table.get?_insert, Table.get?_insert, if_pos rfl] at hfound
    by_contra hne
    rw [if_neg (Ne.symm hne)] at hfound
    cases hfound
  · intro h r
    rw [lookupFunction, lookupFunction, lookupClass, lookupClass, h]
    exact ⟨rfl, rfl⟩

end Registry

/-! ## The laws of the display text -/

namespace ByteString

/-- A folded name is shown as the name is, in small letters. -/
theorem display_lower (x : ByteString) : x.lower.display = x.display.toLower := by
  apply String.toList_injective
  change x.lower.display.toList = (x.display.map Char.toLower).toList
  rw [String.toList_map, toList_display, toList_display, Utf8.decode_lower, List.map_map,
    List.map_map]
  apply List.map_congr_left
  intro unit _
  cases unit with
  | none => exact (show Utf8.replacement = Utf8.replacement.toLower by decide)
  | some c => rfl

/-- Valid bytes are shown as the text that they encode. -/
theorem display_of_isValid {x : ByteString} (h : x.IsValid) :
    x.display = String.ofByteArray (List.toByteArray x) h := by
  rcases (isValid_iff x).mp h with ⟨s, rfl⟩
  rw [display_ofString, ← String.toByteArray_inj, ← String.utf8Encode_toList]
  rfl

/-- A text without U+FFFD is shown of no bytes but its own. -/
theorem eq_ofString_of_display {x : ByteString} {s : String} (h : x.display = s)
    (hs : Utf8.replacement ∉ s.toList) : x = ofString s := by
  rw [← h, toList_display] at hs
  have hkept : ∀ unit ∈ Utf8.decode x, some (unit.getD Utf8.replacement) = unit := by
    intro unit hunit
    cases unit with
    | none => exact absurd (List.mem_map_of_mem hunit) hs
    | some c => rfl
  have hunits : s.toList.map some = Utf8.decode x := by
    rw [← h, toList_display, List.map_map]
    exact (List.map_congr_left hkept).trans (List.map_id _)
  exact Utf8.eq_flatMap_of_parts ((Utf8.parts_iff x _).mpr hunits)

variable {φ : Type}

/-- The display text of a name follows these laws. -/
structure LawfullyShown (φ : Type) (x : ByteString) : Prop where
  /-- It is what is shown of a class or a function of that name, -/
  ofClass : ∀ c : ClassDecl φ, c.name = x → c.displayName = x.display
  ofFunction : ∀ f : FunctionDecl, f.name = x → f.displayName = x.display
  /-- and what an error names when a constant of that name is refused. -/
  ofError : ∀ (t : ConstantTable) (v : Value) (e : ConstantError), t.declare x v = .error e →
    e = .reserved x.display ∨ e = .redefined x.display
  /-- The name falls into encodings and malformed parts in one way, and what is shown are the
  characters encoded, with U+FFFD for each malformed part. -/
  ofParts : ∃ units, (∀ us, Utf8.Parts x us ↔ us = units) ∧
    x.display = String.ofList (units.map fun unit => unit.getD '\uFFFD')
  /-- Valid bytes are shown as the text that they encode, -/
  decodes : ∀ h : x.IsValid, x.display = String.ofByteArray (List.toByteArray x) h
  /-- and so are told apart. -/
  injective : ∀ y : ByteString, x.IsValid → y.IsValid → x.display = y.display → x = y
  /-- What is shown is shown as itself. -/
  shownAgain : (ofString x.display).display = x.display
  /-- Valid bytes are shown apart from what follows them. -/
  append : x.IsValid → ∀ y : ByteString, (x ++ y).display = x.display ++ y.display
  /-- Folding the name folds the letters shown, -/
  folded : x.lower.display = x.display.toLower
  /-- so names that no registry tells apart are shown alike up to case. -/
  identified : ∀ y : ByteString,
    (∀ r : Registry φ,
      r.lookupFunction x = r.lookupFunction y ∧ r.lookupClass x = r.lookupClass y) →
      x.display.toLower = y.display.toLower

/-- Every name is shown lawfully. -/
theorem shown_lawfully (x : ByteString) : LawfullyShown φ x where
  ofClass := by
    rintro c rfl
    rfl
  ofFunction := by
    rintro f rfl
    rfl
  ofError := by
    intro t v e h
    exact ConstantTable.error_of_declare h
  ofParts := ⟨Utf8.decode x, Utf8.parts_iff x, rfl⟩
  decodes := display_of_isValid
  injective := by
    intro y hx hy h
    rcases (isValid_iff x).mp hx with ⟨s, rfl⟩
    rcases (isValid_iff y).mp hy with ⟨t, rfl⟩
    rw [display_ofString, display_ofString] at h
    rw [h]
  shownAgain := display_ofString x.display
  append := by
    intro hx y
    rcases (isValid_iff x).mp hx with ⟨s, rfl⟩
    rw [display_ofString_append, display_ofString]
  folded := display_lower x
  identified := by
    intro y h
    rw [← display_lower, ← display_lower, (Registry.lookups_agree_iff x y).mp h]

/-- Two sequences that break off, one at a letter and one at the end. -/
example : display [0x41, 0xE2, 0x82, 0x5A, 0xC3] = "A\uFFFDZ\uFFFD" := by decide

end ByteString

end ExecContext
