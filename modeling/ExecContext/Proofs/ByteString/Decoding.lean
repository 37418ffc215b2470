import ExecContext.ByteString.Utf8.Lemmas
import Mathlib.Data.List.Infix

/-!
# What the decoder reads

A byte string falls into parts in one way: encodings of characters, and malformed parts, each as
long as it can be while it begins some encoding, or else a single byte.  The decoder reads just
these parts, one unit from each.  While it reads it keeps to one invariant: the bytes of the
sequence under way are completed to the encoding of a character by every choice of bytes in the
ranges that it waits for.

Main results:

- Theorem `Utf8.effect`: what one more byte does to the sequence under way.
- Theorem `Utf8.parts_iff`: the parts of a byte string are those that the decoder reads.
- Theorem `ByteString.text?_eq_some_iff`: the decoder takes the encodings of texts for valid, and
  nothing else.
-/

namespace ExecContext

open String (utf8EncodeChar)

namespace Utf8

/-! ## Encodings of scalar values -/

theorem toNat_val_ofNat {v : Nat} (h : v.isValidChar) : (Char.ofNat v).val.toNat = v := by
  unfold Char.ofNat
  rw [dif_pos h]
  rfl

theorem encodeChar_one {v : Nat} (h : v ≤ 0x7F) :
    utf8EncodeChar (Char.ofNat v) = [UInt8.ofNat v] := by
  have hv : (Char.ofNat v).val.toNat = v := toNat_val_ofNat (Or.inl (by omega))
  unfold utf8EncodeChar
  simp only [hv]
  rw [if_pos h]

theorem encodeChar_two {v : Nat} (h : 0x80 ≤ v ∧ v ≤ 0x7FF) :
    utf8EncodeChar (Char.ofNat v) =
      [UInt8.ofNat (v / 64 % 32 + 192), UInt8.ofNat (v % 64 + 128)] := by
  have hv : (Char.ofNat v).val.toNat = v := toNat_val_ofNat (Or.inl (by omega))
  unfold utf8EncodeChar
  simp only [hv]
  rw [if_neg (by omega), if_pos h.2]

theorem encodeChar_three {v : Nat} (h : 0x800 ≤ v ∧ v ≤ 0xFFFF) (valid : v.isValidChar) :
    utf8EncodeChar (Char.ofNat v) =
      [UInt8.ofNat (v / 4096 % 16 + 224), UInt8.ofNat (v / 64 % 64 + 128),
        UInt8.ofNat (v % 64 + 128)] := by
  have hv : (Char.ofNat v).val.toNat = v := toNat_val_ofNat valid
  unfold utf8EncodeChar
  simp only [hv]
  rw [if_neg (by omega), if_neg (by omega), if_pos h.2]

theorem encodeChar_four {v : Nat} (h : 0x10000 ≤ v ∧ v < 0x110000) :
    utf8EncodeChar (Char.ofNat v) =
      [UInt8.ofNat (v / 262144 % 8 + 240), UInt8.ofNat (v / 4096 % 64 + 128),
        UInt8.ofNat (v / 64 % 64 + 128), UInt8.ofNat (v % 64 + 128)] := by
  have hv : (Char.ofNat v).val.toNat = v := toNat_val_ofNat (Or.inr (by omega))
  unfold utf8EncodeChar
  simp only [hv]
  rw [if_neg (by omega), if_neg (by omega), if_neg (by omega)]

/-! ## The sequence under way -/

/-- The bits so far, with those of further bytes after them. -/
def withBits (scalar : Nat) (x : ByteString) : Nat :=
  x.foldl (fun v b => v * 64 + b.toNat % 64) scalar

/-- The bytes `x` have been read and wait for `more + 1` others, the next one from `low` to
`high`. -/
structure Pending (x : ByteString) (more scalar : Nat) (low high : UInt8) : Prop where
  quiet : completed .ground x = []
  reached : stateAfter .ground x = .within more scalar low high
  range : 0x80 ≤ low ∧ low ≤ high ∧ high ≤ 0xBF
  /-- With any such bytes they encode a character. -/
  encodes : ∀ b tail, low ≤ b → b ≤ high → tail.length = more →
    (∀ c ∈ tail, 0x80 ≤ c ∧ c ≤ 0xBF) →
      x ++ b :: tail = utf8EncodeChar (Char.ofNat (withBits scalar (b :: tail)))

theorem quiet_of_lead {a : UInt8} {s : State} (h : lead a = ([], s)) :
    completed .ground [a] = [] := by
  simp [completed, step, h]

theorem reached_of_lead {a : UInt8} {s : State} (h : lead a = ([], s)) :
    stateAfter .ground [a] = s := by
  simp [stateAfter, step, h]

theorem pending_two {a : UInt8} {k : Nat} (h : lead a = ([], .within 0 k 0x80 0xBF))
    (ha : a.toNat = k + 192) (hk : 2 ≤ k ∧ k < 32) : Pending [a] 0 k 0x80 0xBF where
  quiet := quiet_of_lead h
  reached := reached_of_lead h
  range := by decide
  encodes := by
    intro b tail hlow hhigh htail _
    rw [List.length_eq_zero_iff.mp htail]
    simp only [UInt8.le_iff_toNat_le, UInt8.reduceToNat] at hlow hhigh
    simp only [withBits, List.foldl_cons, List.foldl_nil, List.cons_append, List.nil_append]
    rw [encodeChar_two (by omega)]
    simp only [List.cons.injEq, and_true, ← UInt8.toNat_inj, UInt8.toNat_ofNat']
    omega

theorem pending_three {a low high : UInt8} {k : Nat} (h : lead a = ([], .within 1 k low high))
    (ha : a.toNat = k + 224) (hk : k < 16) (range : 0x80 ≤ low ∧ low ≤ high ∧ high ≤ 0xBF)
    (hlower : k = 0 → 0xA0 ≤ low) (hupper : k = 13 → high ≤ 0x9F) :
    Pending [a] 1 k low high where
  quiet := quiet_of_lead h
  reached := reached_of_lead h
  range := range
  encodes := by
    intro b tail hlow hhigh htail hcont
    rcases List.length_eq_one_iff.mp htail with ⟨c, rfl⟩
    have hc := hcont c (List.mem_singleton_self c)
    simp only [UInt8.le_iff_toNat_le, UInt8.reduceToNat] at hlow hhigh hc range hlower hupper
    simp only [withBits, List.foldl_cons, List.foldl_nil, List.cons_append, List.nil_append]
    have hvalid : ((k * 64 + b.toNat % 64) * 64 + c.toNat % 64).isValidChar := by
      unfold Nat.isValidChar
      omega
    rw [encodeChar_three (by omega) hvalid]
    simp only [List.cons.injEq, and_true, ← UInt8.toNat_inj, UInt8.toNat_ofNat']
    omega

theorem pending_four {a low high : UInt8} {k : Nat} (h : lead a = ([], .within 2 k low high))
    (ha : a.toNat = k + 240) (hk : k < 5) (range : 0x80 ≤ low ∧ low ≤ high ∧ high ≤ 0xBF)
    (hlower : k = 0 → 0x90 ≤ low) (hupper : k = 4 → high ≤ 0x8F) :
    Pending [a] 2 k low high where
  quiet := quiet_of_lead h
  reached := reached_of_lead h
  range := range
  encodes := by
    intro b tail hlow hhigh htail hcont
    rcases List.length_eq_two.mp htail with ⟨c, d, rfl⟩
    have hc := hcont c (by simp)
    have hd := hcont d (by simp)
    simp only [UInt8.le_iff_toNat_le, UInt8.reduceToNat] at hlow hhigh hc hd range hlower hupper
    simp only [withBits, List.foldl_cons, List.foldl_nil, List.cons_append, List.nil_append]
    rw [encodeChar_four (by omega)]
    simp only [List.cons.injEq, and_true, ← UInt8.toNat_inj, UInt8.toNat_ofNat']
    omega

/-- What a first byte does: it is a character, it begins no sequence, or it begins one. -/
theorem lead_cases (b : UInt8) :
    (b ≤ 0x7F ∧ lead b = ([some (Char.ofNat b.toNat)], .ground)) ∨
    (0x80 ≤ b ∧ lead b = ([none], .ground)) ∨
    ∃ more scalar low high, lead b = ([], .within more scalar low high) ∧
      Pending [b] more scalar low high := by
  by_cases h1 : b ≤ 0x7F
  · exact Or.inl ⟨h1, if_pos h1⟩
  by_cases h2 : 0xC2 ≤ b ∧ b ≤ 0xDF
  · have hlead : lead b = ([], .within 0 (b.toNat % 32) 0x80 0xBF) := by
      rw [lead, if_neg h1, if_pos h2]
    simp only [UInt8.le_iff_toNat_le, UInt8.reduceToNat] at h2
    exact Or.inr (Or.inr ⟨_, _, _, _, hlead, pending_two hlead (by omega) (by omega)⟩)
  by_cases h3 : b = 0xE0
  · subst h3
    have hlead : lead 0xE0 = ([], .within 1 0 0xA0 0xBF) := rfl
    exact Or.inr (Or.inr ⟨_, _, _, _, hlead,
      pending_three hlead rfl (by decide) (by decide) (by decide) (by decide)⟩)
  by_cases h4 : b = 0xED
  · subst h4
    have hlead : lead 0xED = ([], .within 1 13 0x80 0x9F) := rfl
    exact Or.inr (Or.inr ⟨_, _, _, _, hlead,
      pending_three hlead rfl (by decide) (by decide) (by decide) (by decide)⟩)
  by_cases h5 : 0xE1 ≤ b ∧ b ≤ 0xEF
  · have hlead : lead b = ([], .within 1 (b.toNat % 16) 0x80 0xBF) := by
      rw [lead, if_neg h1, if_neg h2, if_neg h3, if_neg h4, if_pos h5]
    simp only [UInt8.le_iff_toNat_le, ← UInt8.toNat_inj, UInt8.reduceToNat] at h4 h5
    exact Or.inr (Or.inr ⟨_, _, _, _, hlead, pending_three hlead (by omega) (by omega)
      (by decide) (by omega) (by omega)⟩)
  by_cases h6 : b = 0xF0
  · subst h6
    have hlead : lead 0xF0 = ([], .within 2 0 0x90 0xBF) := rfl
    exact Or.inr (Or.inr ⟨_, _, _, _, hlead,
      pending_four hlead rfl (by decide) (by decide) (by decide) (by decide)⟩)
  by_cases h7 : 0xF1 ≤ b ∧ b ≤ 0xF3
  · have hlead : lead b = ([], .within 2 (b.toNat % 8) 0x80 0xBF) := by
      rw [lead, if_neg h1, if_neg h2, if_neg h3, if_neg h4, if_neg h5, if_neg h6, if_pos h7]
    simp only [UInt8.le_iff_toNat_le, UInt8.reduceToNat] at h7
    exact Or.inr (Or.inr ⟨_, _, _, _, hlead, pending_four hlead (by omega) (by omega)
      (by decide) (by omega) (by omega)⟩)
  by_cases h8 : b = 0xF4
  · subst h8
    have hlead : lead 0xF4 = ([], .within 2 4 0x80 0x8F) := rfl
    exact Or.inr (Or.inr ⟨_, _, _, _, hlead,
      pending_four hlead rfl (by decide) (by decide) (by decide) (by decide)⟩)
  have hlead : lead b = ([none], .ground) := by
    rw [lead, if_neg h1, if_neg h2, if_neg h3, if_neg h4, if_neg h5, if_neg h6, if_neg h7,
      if_neg h8]
  simp only [UInt8.le_iff_toNat_le, UInt8.reduceToNat] at h1
  exact Or.inr (Or.inl ⟨UInt8.le_iff_toNat_le.mpr (Nat.lt_of_not_le h1), hlead⟩)

/-! ## Beginnings of encodings -/

theorem completed_append (s : State) (x y : ByteString) :
    completed s (x ++ y) = completed s x ++ completed (stateAfter s x) y := by
  induction x generalizing s with
  | nil => rfl
  | cons b x ih => simp [completed, stateAfter, ih]

theorem stateAfter_append (s : State) (x y : ByteString) :
    stateAfter s (x ++ y) = stateAfter (stateAfter s x) y := by
  induction x generalizing s with
  | nil => rfl
  | cons b x ih => exact ih (step s b).2

/-- Reading a longer part completes what reading a shorter one does. -/
theorem completed_mono {x y : ByteString} (h : x <+: y) :
    completed .ground x <+: completed .ground y := by
  rcases h with ⟨z, rfl⟩
  rw [completed_append]
  exact List.prefix_append _ _

/-- The bytes begin the encoding of some character. -/
def Begins (x : ByteString) : Prop :=
  ∃ c, x <+: utf8EncodeChar c

/-- Bytes of which some part is malformed begin no encoding, since an encoding is read as its
character alone. -/
theorem not_begins_of_none_mem {x : ByteString} (h : none ∈ completed .ground x) : ¬ Begins x := by
  rintro ⟨c, hprefix⟩
  have hmem := (completed_mono hprefix).subset h
  rw [(readsAs_encodeChar c).1] at hmem
  simp at hmem

theorem encodeChar_ne_nil (c : Char) : utf8EncodeChar c ≠ [] := by
  intro h
  have hread := (readsAs_encodeChar c).1
  rw [h] at hread
  cases hread

/-- What follows an encoding does not change which one it is. -/
theorem encodeChar_append_inj {c d : Char} {x y : ByteString}
    (h : utf8EncodeChar c ++ x = utf8EncodeChar d ++ y) : c = d ∧ x = y := by
  have hread := congrArg decode h
  rw [decode_encodeChar_append, decode_encodeChar_append, List.cons.injEq] at hread
  cases Option.some.inj hread.1
  exact ⟨rfl, List.append_cancel_left h⟩

namespace Pending

variable {x : ByteString} {more scalar : Nat} {low high : UInt8}

theorem ne_nil (h : Pending x more scalar low high) : x ≠ [] := by
  rintro rfl
  cases h.reached

/-- What has been read of a sequence begins an encoding. -/
theorem begins (h : Pending x more scalar low high) : Begins x := by
  have hcont : ∀ c ∈ List.replicate more (0x80 : UInt8), 0x80 ≤ c ∧ c ≤ 0xBF := by
    intro c hc
    rw [List.eq_of_mem_replicate hc]
    decide
  have hencoding := h.encodes low _ UInt8.le_rfl h.range.2.1 List.length_replicate hcont
  exact ⟨_, _, hencoding⟩

end Pending

/-! ## Malformed pieces -/

/-- The piece is malformed where the bytes `rest` follow it: no character stands there, and among
the parts that begin an encoding the piece is the longest, or else it is a single byte. -/
structure Malformed (piece rest : ByteString) : Prop where
  begins : piece.length = 1 ∨ piece ≠ [] ∧ Begins piece
  noChar : ∀ c, ¬ utf8EncodeChar c <+: piece ++ rest
  longest : ∀ longer, longer <+: piece ++ rest → piece.length < longer.length → ¬ Begins longer

theorem Malformed.length_pos {piece rest : ByteString} (h : Malformed piece rest) :
    0 < piece.length := by
  rcases h.begins with hone | ⟨hne, -⟩
  · omega
  · exact List.length_pos_iff.mpr hne

/-- Of two malformed pieces in one place neither is the longer. -/
theorem Malformed.length_le {piece piece' rest rest' : ByteString} (h : Malformed piece rest)
    (h' : Malformed piece' rest') (hsame : piece ++ rest = piece' ++ rest') :
    piece'.length ≤ piece.length := by
  by_contra hlt
  rw [Nat.not_le] at hlt
  have hpos := h.length_pos
  rcases h'.begins with hone | ⟨-, hbegins⟩
  · omega
  · exact h.longest piece' ⟨rest', hsame.symm⟩ hlt hbegins

/-- A piece is malformed if reading on from it never gives a character. -/
theorem malformed_of_completed {piece rest : ByteString}
    (begins : piece.length = 1 ∨ piece ≠ [] ∧ Begins piece)
    (here : ∀ c, ¬ utf8EncodeChar c <+: piece)
    (further : ∀ longer, longer <+: piece ++ rest → piece.length < longer.length →
      none ∈ completed .ground longer) : Malformed piece rest where
  begins := begins
  noChar := by
    intro c hc
    rcases Nat.lt_or_ge piece.length (utf8EncodeChar c).length with hlt | hle
    · exact not_begins_of_none_mem (further _ hc hlt) ⟨c, List.prefix_rfl⟩
    · exact here c (List.prefix_of_prefix_length_le hc (List.prefix_append _ _) hle)
  longest := by
    intro longer hprefix hlt
    exact not_begins_of_none_mem (further longer hprefix hlt)

/-- A byte that begins no sequence is malformed by itself. -/
theorem malformed_singleton {b : UInt8} (h : lead b = ([none], .ground)) (rest : ByteString) :
    Malformed [b] rest := by
  have hread : completed .ground [b] = [none] := by simp [completed, step, h]
  have hmem : ∀ x : ByteString, [b] <+: x → none ∈ completed .ground x := by
    intro x hx
    exact (completed_mono hx).subset (by simp [hread])
  refine malformed_of_completed (Or.inl rfl) ?_ ?_
  · intro c hc
    have hlength := List.length_pos_iff.mpr (encodeChar_ne_nil c)
    have hsame : utf8EncodeChar c = [b] := hc.eq_of_length_le hlength
    exact not_begins_of_none_mem (hmem _ (hsame ▸ List.prefix_rfl)) ⟨c, List.prefix_rfl⟩
  · intro longer hprefix hlt
    exact hmem longer
      (List.prefix_of_prefix_length_le (List.prefix_append _ _) hprefix (Nat.le_of_lt hlt))

/-- What has been read of a sequence is malformed where the bytes end or break it off. -/
theorem Pending.malformed {x : ByteString} {more scalar : Nat} {low high : UInt8}
    (h : Pending x more scalar low high) {rest : ByteString}
    (hrest : ∀ b y, rest = b :: y → ¬ (low ≤ b ∧ b ≤ high)) : Malformed x rest := by
  refine malformed_of_completed (Or.inr ⟨h.ne_nil, h.begins⟩) ?_ ?_
  · intro c hc
    have hread := completed_mono hc
    rw [(readsAs_encodeChar c).1, h.quiet] at hread
    simp at hread
  · intro longer hprefix hlt
    cases rest with
    | nil =>
      rw [List.append_nil] at hprefix
      exact absurd hprefix.length_le (Nat.not_le_of_lt hlt)
    | cons b y =>
      have hnext : x ++ [b] <+: longer := by
        rw [List.append_cons] at hprefix
        refine List.prefix_of_prefix_length_le (List.prefix_append _ _) hprefix ?_
        rw [List.length_append]
        exact hlt
      apply (completed_mono hnext).subset
      rw [completed_append, h.quiet, h.reached]
      simp [completed, step, hrest b y rfl]

/-! ## One more byte -/

/-- The bytes `x` of the sequence under way have brought the reader to the state. -/
inductive Reads : ByteString → State → Prop
  | ground : Reads [] .ground
  | within {x : ByteString} {more scalar : Nat} {low high : UInt8}
      (h : Pending x more scalar low high) : Reads x (.within more scalar low high)

/-- What one more byte does to the sequence `x` under way. -/
inductive Effect (x : ByteString) (s : State) (b : UInt8) : Prop
  /-- It is the last byte of a character, -/
  | completes (c : Char) (hstep : step s b = ([some c], .ground))
      (hchar : x ++ [b] = utf8EncodeChar c)
  /-- or one before the last; -/
  | goesOn (t : State) (hstep : step s b = ([], t)) (hreads : Reads (x ++ [b]) t)
  /-- or where no sequence is under way it begins none; -/
  | beginsNone (hx : x = []) (hs : s = .ground) (hstep : step s b = ([none], .ground))
      (hpiece : ∀ y, Malformed [b] y)
  /-- or it breaks the sequence off, and is read again as a first byte. -/
  | breaksOff (hx : x ≠ []) (hstep : step s b = (none :: (lead b).1, (lead b).2))
      (hpiece : ∀ y, Malformed x (b :: y))

/-- A byte in the range that the reader waits for completes the sequence or continues it. -/
theorem Pending.effect {x : ByteString} {more scalar : Nat} {low high b : UInt8}
    (h : Pending x more scalar low high) (hb : low ≤ b ∧ b ≤ high) :
    Effect x (.within more scalar low high) b := by
  cases more with
  | zero =>
    have hstep : step (.within 0 scalar low high) b =
        ([some (Char.ofNat (scalar * 64 + b.toNat % 64))], .ground) := by
      rw [step, if_pos hb]
    exact .completes _ hstep (h.encodes b [] hb.1 hb.2 rfl (by simp))
  | succ more =>
    have hstep : step (.within (more + 1) scalar low high) b =
        ([], .within more (scalar * 64 + b.toNat % 64) 0x80 0xBF) := by
      rw [step, if_pos hb]
    refine .goesOn _ hstep (.within ⟨?_, ?_, by decide, ?_⟩)
    · rw [completed_append, h.quiet, h.reached]
      simp [completed, hstep]
    · rw [stateAfter_append, h.reached]
      simp [stateAfter, hstep]
    · intro c tail hlow hhigh htail hcont
      have hlength : (c :: tail).length = more + 1 := by rw [List.length_cons, htail]
      have hall : ∀ d ∈ c :: tail, 0x80 ≤ d ∧ d ≤ 0xBF := by
        intro d hd
        rcases List.mem_cons.mp hd with rfl | hd
        · exact ⟨hlow, hhigh⟩
        · exact hcont d hd
      rw [List.append_assoc]
      exact h.encodes b (c :: tail) hb.1 hb.2 hlength hall

/-- What one more byte does, whatever has been read. -/
theorem effect {x : ByteString} {s : State} (h : Reads x s) (b : UInt8) : Effect x s b := by
  cases h with
  | ground =>
    rcases lead_cases b with ⟨hb, hlead⟩ | ⟨hb, hlead⟩ | ⟨more, scalar, low, high, hlead, hp⟩
    · refine .completes _ hlead ?_
      rw [encodeChar_one (UInt8.le_iff_toNat_le.mp hb), UInt8.ofNat_toNat]
      rfl
    · exact .beginsNone rfl rfl hlead (malformed_singleton hlead)
    · exact .goesOn _ hlead (.within hp)
  | @within _ more scalar low high hp =>
    by_cases hb : low ≤ b ∧ b ≤ high
    · exact hp.effect hb
    · have hstep : step (.within more scalar low high) b = (none :: (lead b).1, (lead b).2) := by
        simp [step, hb]
      refine .breaksOff hp.ne_nil hstep fun y => hp.malformed fun c z hcz => ?_
      cases hcz
      exact hb

/-- Wherever the reader goes it has read the bytes of one sequence. -/
theorem Reads.exists_step {x : ByteString} {s : State} (h : Reads x s) (b : UInt8) :
    ∃ y, Reads y (step s b).2 := by
  cases effect h b with
  | completes c hstep => exact ⟨[], hstep ▸ .ground⟩
  | goesOn t hstep hreads => exact ⟨x ++ [b], hstep ▸ hreads⟩
  | beginsNone hx hs hstep => exact ⟨[], hstep ▸ .ground⟩
  | breaksOff hx hstep =>
    rw [hstep]
    rcases lead_cases b with ⟨-, hlead⟩ | ⟨-, hlead⟩ | ⟨more, scalar, low, high, hlead, hp⟩
    · exact ⟨[], hlead ▸ .ground⟩
    · exact ⟨[], hlead ▸ .ground⟩
    · exact ⟨[b], hlead ▸ .within hp⟩

/-! ## Parts -/

/-- The bytes fall into encodings and malformed pieces with these units. -/
inductive Parts : ByteString → List (Option Char) → Prop
  | nil : Parts [] []
  | char (c : Char) {rest : ByteString} {units : List (Option Char)} (h : Parts rest units) :
      Parts (utf8EncodeChar c ++ rest) (some c :: units)
  | malformed {piece rest : ByteString} {units : List (Option Char)} (hpiece : Malformed piece rest)
      (h : Parts rest units) : Parts (piece ++ rest) (none :: units)

/-- No byte string falls into parts in two ways. -/
theorem Parts.unique {x : ByteString} {us vs : List (Option Char)} (hu : Parts x us)
    (hv : Parts x vs) : us = vs := by
  induction hu generalizing vs with
  | nil =>
    generalize hx : ([] : ByteString) = x at hv
    cases hv with
    | nil => rfl
    | char c h => exact absurd (List.append_eq_nil_iff.mp hx.symm).1 (encodeChar_ne_nil c)
    | malformed hpiece h =>
      have hpos := hpiece.length_pos
      simp [(List.append_eq_nil_iff.mp hx.symm).1] at hpos
  | @char c rest units h ih =>
    generalize hx : utf8EncodeChar c ++ rest = x at hv
    cases hv with
    | nil => exact absurd (List.append_eq_nil_iff.mp hx).1 (encodeChar_ne_nil c)
    | char d h' =>
      rcases encodeChar_append_inj hx with ⟨rfl, rfl⟩
      rw [ih h']
    | malformed hpiece h' => exact absurd ⟨rest, hx⟩ (hpiece.noChar c)
  | @malformed piece rest units hpiece h ih =>
    generalize hx : piece ++ rest = x at hv
    cases hv with
    | nil =>
      have hpos := hpiece.length_pos
      simp [(List.append_eq_nil_iff.mp hx).1] at hpos
    | char d h' => exact absurd ⟨_, hx.symm⟩ (hpiece.noChar d)
    | malformed hpiece' h' =>
      have hlength := Nat.le_antisymm (hpiece'.length_le hpiece hx.symm) (hpiece.length_le hpiece' hx)
      rcases List.append_inj hx hlength with ⟨rfl, rfl⟩
      rw [ih h']

/-- Reading on from any state gives the units of the parts into which the bytes of the sequence
under way fall with those that follow. -/
theorem parts_decodeFrom {x : ByteString} {s : State} (h : Reads x s) (y : ByteString) :
    Parts (x ++ y) (decodeFrom s y) := by
  induction y generalizing x s with
  | nil =>
    cases h with
    | ground => exact .nil
    | within hp => exact .malformed (hp.malformed fun b y hby => by cases hby) .nil
  | cons b y ih =>
    -- a byte that breaks a sequence off is read again with none under way, so that comes first
    have hground : Parts (b :: y) (decodeFrom .ground (b :: y)) := by
      rw [decodeFrom]
      cases effect .ground b with
      | completes c hstep hchar =>
        have hpart : b :: y = utf8EncodeChar c ++ y := congrArg (· ++ y) hchar
        rw [hstep, hpart]
        exact .char c (ih .ground)
      | goesOn t hstep hreads =>
        rw [hstep]
        exact ih hreads
      | beginsNone hx hs hstep hpiece =>
        rw [hstep]
        exact .malformed (hpiece y) (ih .ground)
      | breaksOff hx => exact absurd rfl hx
    cases effect h b with
    | completes c hstep hchar =>
      rw [decodeFrom, hstep, List.append_cons, hchar]
      exact .char c (ih .ground)
    | goesOn t hstep hreads =>
      rw [decodeFrom, hstep, List.append_cons]
      exact ih hreads
    | beginsNone hx hs =>
      subst hx hs
      exact hground
    | breaksOff hx hstep hpiece =>
      have hunits : decodeFrom s (b :: y) = none :: decodeFrom .ground (b :: y) := by
        rw [decodeFrom, hstep]
        rfl
      rw [hunits]
      exact .malformed (hpiece y) hground

theorem parts_iff (x : ByteString) (us : List (Option Char)) : Parts x us ↔ us = decode x := by
  constructor
  · intro h
    exact h.unique (parts_decodeFrom .ground x)
  · rintro rfl
    exact parts_decodeFrom .ground x

/-- Units that can all be taken out are units of characters. -/
theorem eq_map_of_mapM_id {us : List (Option Char)} {cs : List Char} (h : us.mapM id = some cs) :
    us = cs.map some := by
  induction us generalizing cs with
  | nil =>
    cases h
    rfl
  | cons u us ih =>
    rw [List.mapM_cons] at h
    rcases Option.bind_eq_some_iff.mp h with ⟨c, hc, hrest⟩
    rcases Option.bind_eq_some_iff.mp hrest with ⟨ds, hds, hcs⟩
    cases hcs
    rw [List.map_cons, ← ih hds]
    exact congrArg (· :: us) hc

/-- Bytes that fall into encodings alone encode a text. -/
theorem eq_flatMap_of_parts {x : ByteString} {cs : List Char} (h : Parts x (cs.map some)) :
    x = cs.flatMap utf8EncodeChar := by
  generalize hunits : cs.map some = units at h
  induction h generalizing cs with
  | nil =>
    rw [List.map_eq_nil_iff.mp hunits]
    rfl
  | char c h ih =>
    rcases List.map_eq_cons_iff.mp hunits with ⟨d, ds, rfl, hd, hds⟩
    cases Option.some.inj hd
    rw [ih hds, List.flatMap_cons]
  | malformed hpiece h ih =>
    rcases List.map_eq_cons_iff.mp hunits with ⟨d, ds, -, hd, -⟩
    cases hd

end Utf8

namespace ByteString

/-- The bytes are valid UTF-8. -/
def IsValid (x : ByteString) : Prop :=
  (List.toByteArray x).IsValidUTF8

/-- They are the bytes of a text. -/
theorem isValid_iff (x : ByteString) : x.IsValid ↔ ∃ s, x = ofString s := by
  constructor
  · rintro ⟨cs, hcs⟩
    refine ⟨String.ofList cs, ?_⟩
    rw [ofString_ofList]
    exact List.toByteArray_inj.mp hcs
  · rintro ⟨s, rfl⟩
    exact ⟨s.toList, rfl⟩

/-- The decoder takes for a text just the bytes that encode it. -/
theorem text?_eq_some_iff (x : ByteString) (s : String) : x.text? = some s ↔ x = ofString s := by
  constructor
  · intro h
    rcases Option.map_eq_some_iff.mp h with ⟨cs, hcs, rfl⟩
    have hunits : Utf8.decode x = cs.map some := Utf8.eq_map_of_mapM_id hcs
    rw [ofString_ofList]
    apply Utf8.eq_flatMap_of_parts
    rw [← hunits, Utf8.parts_iff]
  · rintro rfl
    exact text?_ofString s

end ByteString

end ExecContext
