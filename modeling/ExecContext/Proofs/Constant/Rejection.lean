import ExecContext.Proofs.ByteString.Display
import ExecContext.Proofs.Constant.Keywords

/-!
# What the text of a rejection tells

The text of an error is one of two sentences about a name.  They end differently, whatever name
stands in them, and so the text tells which sentence it is, and then the name.

The error in which a declaration ends if it is rejected depends on no more than what is shown of the
name.  The name settles the error, and whether a name spells a keyword can be seen from its display
text: keywords are shown without U+FFFD, and a text without it is shown of its own bytes alone.

Main results:

- Theorem `ConstantError.message_inj`: the text tells the error.
- Theorem `ConstantTable.eq_ofName_of_declare`: the name settles the error.
- Theorem `Keyword.parse_eq_some_iff_display`: a keyword is told by the display text.
- Theorem `ConstantError.ofName_inj`: names that are shown alike are rejected alike.
-/

namespace ExecContext

/-! ## Texts of errors -/

namespace ConstantError

/-- Why a declaration is rejected, whatever its name. -/
inductive Reason where
  | redefined
  | reserved
  deriving DecidableEq, Repr

/-- The reason of an error. -/
def reason : ConstantError → Reason
  | .redefined _ => .redefined
  | .reserved _ => .reserved

/-- An error is its reason and its name. -/
theorem eq_iff (e f : ConstantError) : e = f ↔ e.reason = f.reason ∧ e.name = f.name := by
  cases e <;> cases f <;> simp [reason, name]

/-- The two sentences end differently. -/
theorem message_redefined_ne_reserved (a b : String) :
    (redefined a).message ≠ (reserved b).message := by
  intro h
  let ending := " already defined"
  let longer := " is a reserved constant and cannot be redefined"
  have hending : ending.toList <:+ (redefined a).message.toList := by
    rw [message, String.toList_append]
    exact List.suffix_append _ _
  have hlonger : longer.toList <:+ (redefined a).message.toList := by
    rw [h, message, String.toList_append]
    exact List.suffix_append _ _
  -- both end one text, so the shorter ends the longer
  have hsuffix : ending.toList <:+ longer.toList :=
    List.suffix_of_suffix_length_le hending hlonger (by decide)
  exact absurd hsuffix (by decide)

/-- The text tells the error. -/
theorem message_inj {e f : ConstantError} : e.message = f.message ↔ e = f := by
  constructor
  · intro h
    cases e with
    | redefined a =>
      cases f with
      | redefined b =>
        rw [message, message, String.append_left_inj, String.append_right_inj] at h
        rw [h]
      | reserved b => exact absurd h (message_redefined_ne_reserved a b)
    | reserved a =>
      cases f with
      | redefined b => exact absurd h.symm (message_redefined_ne_reserved b a)
      | reserved b =>
        rw [message, message, String.append_left_inj] at h
        rw [h]
  · rintro rfl
    rfl

/-- A name that contains the one sentence does not make the other of it. -/
example : (redefined "null is a reserved constant and cannot be redefined").message ≠
    (reserved "Constant null already defined").message := by decide

end ConstantError

/-! ## Keywords as they are shown -/

namespace Keyword

/-- A keyword is told by the display text. -/
theorem parse_eq_some_iff_display (name : ByteString) (k : Keyword) :
    parse name = some k ↔ name.display.toLower = k.text := by
  have hplain : Utf8.replacement ∉ k.text.toList := by cases k <;> decide
  rw [parse_eq_some_iff_lower, spelling_eq_ofString, ← ByteString.display_lower]
  constructor
  · intro h
    rw [h, ByteString.display_ofString]
  · intro h
    exact ByteString.eq_ofString_of_display h hplain

/-- Names that are shown alike spell the same keyword, if any. -/
theorem parse_eq_of_display_eq {x y : ByteString} (h : x.display = y.display) :
    parse x = parse y := by
  apply Option.ext
  intro k
  rw [parse_eq_some_iff_display, parse_eq_some_iff_display, h]

end Keyword

/-! ## Errors of names -/

/-- The error in which a declaration of the name ends if it is rejected. -/
def ConstantError.ofName (name : ByteString) : ConstantError :=
  if (Keyword.parse name).isSome then .reserved name.display else .redefined name.display

/-- The name settles the error, whatever the table and the value. -/
theorem ConstantTable.eq_ofName_of_declare {t : ConstantTable} {name : ByteString} {v : Value}
    {e : ConstantError} (h : t.declare name v = .error e) : e = .ofName name := by
  rw [declare_eq] at h
  unfold ConstantError.ofName
  split at h
  · rename_i hkeyword
    rw [if_pos hkeyword]
    exact (Except.error.inj h).symm
  · rename_i hkeyword
    rw [if_neg hkeyword]
    split at h
    · exact (Except.error.inj h).symm
    · cases h

/-- So it does where a step answers with the error. -/
theorem ConstantTable.eq_ofName_of_rejected {t : ConstantTable} {name : ByteString} {v : Value}
    {e : ConstantError} (h : (t.step (.declare name v)).answer = .rejected e) :
    e = .ofName name := by
  rw [step] at h
  split at h
  · rename_i f hdeclare
    rw [← ConstantAnswer.rejected.inj h]
    exact eq_ofName_of_declare hdeclare
  · cases h

namespace ConstantError

@[simp]
theorem name_ofName (name : ByteString) : (ofName name).name = name.display := by
  unfold ofName
  split <;> rfl

theorem reason_ofName_eq_reserved_iff (name : ByteString) :
    (ofName name).reason = .reserved ↔ ∃ k, Keyword.parse name = some k := by
  rw [← Option.isSome_iff_exists]
  unfold ofName
  split <;> simp [reason, *]

/-- Names that are shown alike are rejected alike, and no others. -/
theorem ofName_inj (x y : ByteString) : ofName x = ofName y ↔ x.display = y.display := by
  constructor
  · intro h
    rw [← name_ofName x, h, name_ofName]
  · intro h
    rw [ofName, ofName, Keyword.parse_eq_of_display_eq h, h]

end ConstantError

end ExecContext
