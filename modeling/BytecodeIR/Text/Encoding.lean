/-!
Texts as bytes.

A text is stored and sent in UTF-8, and bytes are a text if they are the UTF-8 form of one.  Main
statement: what is written for a text reads back as the text.
-/

namespace BytecodeIR.Text

/-- The bytes of a text. -/
def encode (text : String) : List UInt8 := text.toUTF8.data.toList

/-- The text that bytes stand for, if they stand for one. -/
def decode? (bytes : List UInt8) : Option String := String.fromUTF8? ⟨bytes.toArray⟩

/-- What is written reads back. -/
@[simp] theorem decode?_encode (text : String) : decode? (encode text) = some text := by
  have bytes : (⟨(encode text).toArray⟩ : ByteArray) = text.toUTF8 := by
    simp only [encode, Array.toArray_toList]
  simp only [decode?, bytes, String.fromUTF8?, String.toUTF8_eq_toByteArray,
    dif_pos text.isValidUTF8]
  rfl

end BytecodeIR.Text
