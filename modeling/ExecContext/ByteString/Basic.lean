/-!
# Byte strings

Names and string values are finite sequences of bytes.  Nothing requires them
to be valid UTF-8; text enters as the UTF-8 encoding of its characters.

Main results:

- Theorem `ByteString.ofString_append`: encoding respects concatenation.
- Theorem `ByteString.ofString_ofList`: the encoding of a string is the
  concatenation of the encodings of its characters.
-/

namespace ExecContext

/-- A finite sequence of bytes. -/
abbrev ByteString := List UInt8

namespace ByteString

/-- The UTF-8 bytes of a text. -/
def ofString (s : String) : ByteString :=
  s.toList.flatMap String.utf8EncodeChar

/-- Bytewise lexicographic order, a proper initial part coming first. -/
def le (a b : ByteString) : Bool :=
  decide (a ≤ b)

@[simp]
theorem ofString_ofList (cs : List Char) :
    ofString (String.ofList cs) = cs.flatMap String.utf8EncodeChar := by
  simp [ofString]

@[simp]
theorem ofString_append (s t : String) :
    ofString (s ++ t) = ofString s ++ ofString t := by
  simp [ofString]

end ByteString

end ExecContext
