/-!
# Byte strings

Values and messages are lists of bytes. Words are written with the high byte first, and text as
its UTF-8 bytes.
-/

namespace PayrollSeal

/-- A byte string. -/
abbrev Bytes := List UInt8

namespace Bytes

/-- The two bytes of a word, high byte first. -/
def ofUInt16 (w : UInt16) : Bytes :=
  [(w >>> 8).toUInt8, w.toUInt8]

/-- The four bytes of a word, high byte first. -/
def ofUInt32 (w : UInt32) : Bytes :=
  [(w >>> 24).toUInt8, (w >>> 16).toUInt8, (w >>> 8).toUInt8, w.toUInt8]

/-- The word that two bytes spell, high byte first. -/
def toUInt16 (high low : UInt8) : UInt16 :=
  high.toUInt16 <<< 8 ||| low.toUInt16

/-- The UTF-8 bytes of a text. -/
def ofText (text : String) : Bytes :=
  text.toList.flatMap String.utf8EncodeChar

/-- The number of UTF-8 bytes that characters take. -/
def utf8Length (chars : List Char) : Nat :=
  chars.foldr (fun c length => c.utf8Size + length) 0

@[simp] theorem length_ofUInt16 (w : UInt16) : (ofUInt16 w).length = 2 := rfl

@[simp] theorem length_ofUInt32 (w : UInt32) : (ofUInt32 w).length = 4 := rfl

theorem length_ofText (text : String) : (ofText text).length = utf8Length text.toList := by
  unfold ofText
  induction text.toList with
  | nil => rfl
  | cons c chars ih => simp [utf8Length, ih]

end Bytes

end PayrollSeal
