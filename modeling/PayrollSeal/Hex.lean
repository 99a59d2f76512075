import PayrollSeal.Bytes

/-!
# Hex text

Each byte is written as two digits, high half first, in lower case. Reading accepts either case;
callers that want lower case only ask `isLower` first. A text is refused for an odd number of
UTF-8 bytes before any of its characters is looked at.
-/

namespace PayrollSeal.Hex

/-- Why a text is not hex. -/
inductive Fault where
  /-- The text takes an odd number of bytes. -/
  | oddLength
  /-- The byte at `position` is no digit; `byte` is the character with that code. -/
  | badDigit (byte : Char) (position : Nat)
deriving DecidableEq

/-- The digits of one byte. -/
def ofByte (b : UInt8) : List Char :=
  [Nat.digitChar (b.toNat / 16), Nat.digitChar (b.toNat % 16)]

/-- Writes bytes as lower-case digits. -/
def encode (bytes : Bytes) : List Char :=
  bytes.flatMap ofByte

/-- Whether a character is a lower-case digit. -/
def isLower (c : Char) : Bool :=
  c.isDigit || ('a' ≤ c && c ≤ 'f')

/-- The value of a digit of either case. -/
def value? (c : Char) : Option UInt8 :=
  if c.isDigit then some (c.toNat - 48).toUInt8
  else if 'a' ≤ c ∧ c ≤ 'f' then some (c.toNat - 87).toUInt8
  else if 'A' ≤ c ∧ c ≤ 'F' then some (c.toNat - 55).toUInt8
  else none

/-- The fault of a character that is no digit: its first UTF-8 byte is the one that is named. -/
def faultAt (c : Char) (position : Nat) : Fault :=
  .badDigit (Char.ofNat ((String.utf8EncodeChar c).headD 0).toNat) position

/-- Reads pairs of digits; `read` holds the bytes before `position`, last one first. -/
def decodeFrom (position : Nat) (read : Bytes) : List Char → Except Fault Bytes
  | [] => .ok read.reverse
  | [c] => .error (if (value? c).isNone then faultAt c position else .oddLength)
  | c :: d :: rest =>
    match value? c, value? d with
    | some high, some low => decodeFrom (position + 2) ((high * 16 + low) :: read) rest
    | none, _ => .error (faultAt c position)
    | some _, none => .error (faultAt d (position + 1))

/-- Reads hex digits of either case. -/
def decode (digits : List Char) : Except Fault Bytes :=
  if Bytes.utf8Length digits % 2 = 1 then .error .oddLength else decodeFrom 0 [] digits

/-- The inside of a quoted character: quotes, backslashes and control characters are escaped. -/
def escaped (c : Char) : String :=
  if c = '\'' then "\\'"
  else if c = '\\' then "\\\\"
  else if c = '\n' then "\\n"
  else if c = '\r' then "\\r"
  else if c = '\t' then "\\t"
  else if c.toNat = 0 then "\\0"
  else if c.toNat < 32 ∨ c.toNat = 127 then
    "\\u\x7b" ++ String.ofList (Nat.toDigits 16 c.toNat) ++ "\x7d"
  else String.singleton c

/-- The text of a fault. -/
def Fault.message : Fault → String
  | .oddLength => "Odd number of digits"
  | .badDigit byte position => s!"Invalid character '{escaped byte}' at position {position}"

@[simp] theorem length_encode (bytes : Bytes) : (encode bytes).length = 2 * bytes.length := by
  induction bytes with
  | nil => rfl
  | cons b bytes ih =>
    simp only [encode, List.flatMap_cons, List.length_append, List.length_cons] at ih ⊢
    rw [ih]
    simp [ofByte]
    omega

end PayrollSeal.Hex
