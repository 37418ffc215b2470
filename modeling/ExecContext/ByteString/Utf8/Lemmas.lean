import ExecContext.ByteString.Utf8

/-!
# Decoding what was encoded

The encoding of a character is read as that character, whatever follows it, so
a text is recovered from its bytes and malformed parts cannot reach back into
the valid text before them.

Main results:

- Theorem `Utf8.decode_ofString_append`: the bytes of a text are read as its
  characters, and what follows them is read on its own.
- Theorem `ByteString.display_ofString`: the display text of a text's bytes is that
  text.
- Theorem `ByteString.text?_ofString`: a text is recovered from its bytes.
-/

namespace ExecContext

namespace Utf8

/-! ## Complete sequences -/

/-- Reading these bytes from between two sequences gives just the character of this
scalar value. -/
def ReadsAs (x : ByteString) (scalar : Nat) : Prop :=
  completed .ground x = [some (Char.ofNat scalar)] ∧ stateAfter .ground x = .ground

theorem readsAs_one {a : UInt8} (ha : a.toNat ≤ 0x7F) : ReadsAs [a] a.toNat := by
  have h : a ≤ 0x7F := UInt8.le_iff_toNat_le.mpr ha
  simp [ReadsAs, completed, stateAfter, step, lead, h]

theorem readsAs_two {a b : UInt8} {s : Nat} {low high : UInt8}
    (ha : lead a = ([], .within 0 s low high)) (hb : low ≤ b ∧ b ≤ high) :
    ReadsAs [a, b] (s * 64 + b.toNat % 64) := by
  simp [ReadsAs, completed, stateAfter, step, ha, hb]

theorem readsAs_three {a b c : UInt8} {s : Nat} {low high : UInt8}
    (ha : lead a = ([], .within 1 s low high)) (hb : low ≤ b ∧ b ≤ high)
    (hc : 0x80 ≤ c ∧ c ≤ 0xBF) :
    ReadsAs [a, b, c] ((s * 64 + b.toNat % 64) * 64 + c.toNat % 64) := by
  simp [ReadsAs, completed, stateAfter, step, ha, hb, hc]

theorem readsAs_four {a b c d : UInt8} {s : Nat} {low high : UInt8}
    (ha : lead a = ([], .within 2 s low high)) (hb : low ≤ b ∧ b ≤ high)
    (hc : 0x80 ≤ c ∧ c ≤ 0xBF) (hd : 0x80 ≤ d ∧ d ≤ 0xBF) :
    ReadsAs [a, b, c, d]
      (((s * 64 + b.toNat % 64) * 64 + c.toNat % 64) * 64 + d.toNat % 64) := by
  simp [ReadsAs, completed, stateAfter, step, ha, hb, hc, hd]

/-! ## First bytes -/

/-- The byte of a small number. -/
theorem toNat_byte {n : Nat} (h : n < 256) : (UInt8.ofNat n).toNat = n := by
  simpa using h

/-- A byte lies in a range when its number does. -/
theorem byte_mem_range {n : Nat} {low high : UInt8} (hn : n < 256)
    (h : low.toNat ≤ n ∧ n ≤ high.toNat) :
    low ≤ UInt8.ofNat n ∧ UInt8.ofNat n ≤ high := by
  rw [UInt8.le_iff_toNat_le, UInt8.le_iff_toNat_le, toNat_byte hn]
  exact h

/-- The number after a continuation mark is a continuation byte. -/
theorem continuation_mem_range (v : Nat) :
    (0x80 : UInt8) ≤ UInt8.ofNat (v % 64 + 128) ∧ UInt8.ofNat (v % 64 + 128) ≤ 0xBF := by
  have hlt : v % 64 < 64 := Nat.mod_lt v (by omega)
  exact byte_mem_range (by omega) ⟨by simp, by simp; omega⟩

theorem toNat_continuation (v : Nat) : (UInt8.ofNat (v % 64 + 128)).toNat % 64 = v % 64 := by
  rw [toNat_byte (by omega)]
  omega

/-- A first byte below `0xE0` announces one more byte. -/
theorem lead_two {k : Nat} (h : 2 ≤ k ∧ k < 32) :
    lead (UInt8.ofNat (k + 192)) = ([], .within 0 k 0x80 0xBF) := by
  have hn : (UInt8.ofNat (k + 192)).toNat = k + 192 := toNat_byte (by omega)
  unfold lead
  rw [if_neg (by rw [UInt8.le_iff_toNat_le, hn]; simp),
    if_pos (byte_mem_range (by omega) ⟨by simp; omega, by simp; omega⟩), hn]
  congr 2
  omega

/-- The range of the second byte after a first byte from `0xE0` to `0xEF`. -/
def secondOfThree (k : Nat) : UInt8 × UInt8 :=
  if k = 0 then (0xA0, 0xBF) else if k = 13 then (0x80, 0x9F) else (0x80, 0xBF)

theorem lead_three {k : Nat} (h : k < 16) :
    lead (UInt8.ofNat (k + 224)) =
      ([], .within 1 k (secondOfThree k).1 (secondOfThree k).2) := by
  have all : ∀ k : Fin 16, lead (UInt8.ofNat (k.val + 224)) =
      ([], .within 1 k.val (secondOfThree k.val).1 (secondOfThree k.val).2) := by decide
  exact all ⟨k, h⟩

/-- The range of the second byte after a first byte from `0xF0` to `0xF4`. -/
def secondOfFour (k : Nat) : UInt8 × UInt8 :=
  if k = 0 then (0x90, 0xBF) else if k = 4 then (0x80, 0x8F) else (0x80, 0xBF)

theorem lead_four {k : Nat} (h : k < 5) :
    lead (UInt8.ofNat (k + 240)) =
      ([], .within 2 k (secondOfFour k).1 (secondOfFour k).2) := by
  have all : ∀ k : Fin 5, lead (UInt8.ofNat (k.val + 240)) =
      ([], .within 2 k.val (secondOfFour k.val).1 (secondOfFour k.val).2) := by decide
  exact all ⟨k, h⟩

/-! ## Characters -/

/-- The encoding of a character is read as that character. -/
theorem readsAs_encodeChar (c : Char) : ReadsAs (String.utf8EncodeChar c) c.val.toNat := by
  have valid : c.val.toNat < 0xD800 ∨ 0xDFFF < c.val.toNat ∧ c.val.toNat < 0x110000 := c.valid
  unfold String.utf8EncodeChar
  generalize c.val.toNat = v at valid
  simp only
  split
  · rename_i h
    have hv : (UInt8.ofNat v).toNat = v := toNat_byte (by omega)
    have hr := readsAs_one (show (UInt8.ofNat v).toNat ≤ 0x7F by omega)
    rwa [hv] at hr
  split
  · rename_i h1 h2
    have hr := readsAs_two (lead_two (show 2 ≤ v / 64 % 32 ∧ v / 64 % 32 < 32 by omega))
      (continuation_mem_range v)
    rw [toNat_continuation] at hr
    rwa [show v / 64 % 32 * 64 + v % 64 = v by omega] at hr
  split
  · rename_i h1 h2 h3
    have hk : v / 4096 % 16 < 16 := by omega
    have hb : (secondOfThree (v / 4096 % 16)).1 ≤ UInt8.ofNat (v / 64 % 64 + 128) ∧
        UInt8.ofNat (v / 64 % 64 + 128) ≤ (secondOfThree (v / 4096 % 16)).2 := by
      apply byte_mem_range (by omega)
      unfold secondOfThree
      split
      · exact ⟨by simp; omega, by simp; omega⟩
      split
      · exact ⟨by simp, by simp; omega⟩
      · exact ⟨by simp, by simp; omega⟩
    have hr := readsAs_three (lead_three hk) hb (continuation_mem_range v)
    rw [toNat_continuation, toNat_continuation] at hr
    rwa [show (v / 4096 % 16 * 64 + v / 64 % 64) * 64 + v % 64 = v by omega] at hr
  · rename_i h1 h2 h3
    have hk : v / 262144 % 8 < 5 := by omega
    have hb : (secondOfFour (v / 262144 % 8)).1 ≤ UInt8.ofNat (v / 4096 % 64 + 128) ∧
        UInt8.ofNat (v / 4096 % 64 + 128) ≤ (secondOfFour (v / 262144 % 8)).2 := by
      apply byte_mem_range (by omega)
      unfold secondOfFour
      split
      · exact ⟨by simp; omega, by simp; omega⟩
      split
      · exact ⟨by simp, by simp; omega⟩
      · exact ⟨by simp, by simp; omega⟩
    have hr := readsAs_four (lead_four hk) hb (continuation_mem_range (v / 64))
      (continuation_mem_range v)
    rw [toNat_continuation, toNat_continuation, toNat_continuation] at hr
    rwa [show ((v / 262144 % 8 * 64 + v / 4096 % 64) * 64 + v / 64 % 64) * 64 + v % 64 = v
      by omega] at hr

theorem decode_encodeChar_append (c : Char) (x : ByteString) :
    decode (String.utf8EncodeChar c ++ x) = some c :: decode x := by
  obtain ⟨hc, hs⟩ := readsAs_encodeChar c
  have hv : Char.ofNat c.val.toNat = c := Char.ofNat_toNat c
  rw [decode, decodeFrom_append, hc, hs, hv]
  rfl

/-- The bytes of a text are read as its characters, and what follows them is read on
its own. -/
theorem decode_ofString_append (s : String) (x : ByteString) :
    decode (ByteString.ofString s ++ x) = s.toList.map some ++ decode x := by
  unfold ByteString.ofString
  induction s.toList with
  | nil => rfl
  | cons c cs ih =>
    rw [List.flatMap_cons, List.append_assoc, decode_encodeChar_append, ih]
    rfl

theorem decode_ofString (s : String) : decode (ByteString.ofString s) = s.toList.map some := by
  have h := decode_ofString_append s []
  simpa [decode, decodeFrom, State.finish] using h

end Utf8

namespace ByteString

/-- The display text of a text's bytes followed by others is the text followed by
theirs. -/
theorem display_ofString_append (s : String) (x : ByteString) :
    (ofString s ++ x : ByteString).display = s ++ x.display := by
  apply String.toList_injective
  simp [Utf8.decode_ofString_append, Function.comp_def]

/-- The display text of a text's bytes is that text. -/
theorem display_ofString (s : String) : (ofString s).display = s := by
  apply String.toList_injective
  simp [Utf8.decode_ofString, Function.comp_def]

/-- A text is recovered from its bytes. -/
theorem text?_ofString (s : String) : (ofString s).text? = some s := by
  have h : ∀ cs : List Char, (cs.map some).mapM (m := Option) id = some cs := by
    intro cs
    induction cs with
    | nil => rfl
    | cons c cs ih => simp [ih]
  rw [text?, Utf8.decode_ofString, h]
  simp

end ByteString

end ExecContext
