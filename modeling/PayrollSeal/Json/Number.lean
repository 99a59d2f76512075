import PayrollSeal.Decimal
import PayrollSeal.Double

/-!
# Numbers in JSON

A number is kept as it is written: a sign, canonical digits, and perhaps a fraction and an
exponent. Only numbers that are digits and nothing else name a natural number.
-/

namespace PayrollSeal.Json

/-- A number taken apart. -/
structure NumberParts where
  negative : Bool
  whole : List Char
  /-- The digits after the point; there are none without a point. -/
  fraction : List Char
  /-- The digits of the exponent and whether it is negative. -/
  exponent : Option (Bool × List Char)

namespace NumberParts

/-- Takes an exponent that must reach to the end. -/
def exponent? (chars : List Char) : Option (Bool × List Char) :=
  let (negative, digits) :=
    match chars with
    | '-' :: digits => (true, digits)
    | '+' :: digits => (false, digits)
    | digits => (false, digits)
  if !digits.isEmpty && digits.all Char.isDigit then some (negative, digits) else none

/-- Takes what may follow the fraction. -/
def withExponent? (parts : NumberParts) : List Char → Option NumberParts
  | [] => some parts
  | mark :: rest =>
    if mark = 'e' ∨ mark = 'E' then
      (exponent? rest).map fun exponent => { parts with exponent := some exponent }
    else none

/-- Takes what may follow the whole digits. -/
def withFraction? (parts : NumberParts) : List Char → Option NumberParts
  | '.' :: rest =>
    let fraction := rest.takeWhile Char.isDigit
    if fraction.isEmpty then none
    else { parts with fraction }.withExponent? (rest.dropWhile Char.isDigit)
  | rest => parts.withExponent? rest

/-- Takes a number apart, sign first. -/
def ofSigned? (negative : Bool) (chars : List Char) : Option NumberParts :=
  let whole := chars.takeWhile Char.isDigit
  if IsCanonical whole then
    (⟨negative, whole, [], none⟩ : NumberParts).withFraction? (chars.dropWhile Char.isDigit)
  else none

/-- Takes a number apart, if the characters are one. -/
def ofChars? : List Char → Option NumberParts
  | '-' :: chars => ofSigned? true chars
  | chars => ofSigned? false chars

/-- Reads digits behind a value for as long as it fits 64 bits, and gives what is left over. -/
def readDigits (value : Nat) : List Char → Nat × List Char
  | [] => (value, [])
  | c :: rest =>
    let next := value * 10 + (c.toNat - 48)
    if next < UInt64.size then readDigits next rest else (value, c :: rest)

/-- The exponent that is written, or zero. -/
def writtenExponent (parts : NumberParts) : Int :=
  match parts.exponent with
  | some (true, digits) => -(Nat.ofDigitChars 10 digits 0 : Int)
  | some (false, digits) => Nat.ofDigitChars 10 digits 0
  | none => 0

/-- The digits of a number that fit 64 bits, and the power of ten by which they are multiplied.
A digit left over before the point still counts as a place; one behind the point does not. -/
def scaled (parts : NumberParts) : Nat × Int :=
  let (value, wholeLeft) := readDigits 0 parts.whole
  let (value, fractionLeft) := readDigits value parts.fraction
  (value, parts.writtenExponent + wholeLeft.length + fractionLeft.length - parts.fraction.length)

/-- Whether a number is read as a finite double: the digits and the power of ten are each rounded
to a double, and their product must not overflow. From 309 places on it overflows whatever the
digits are. -/
def isFinite (parts : NumberParts) : Bool :=
  let (value, scale) := parts.scaled
  value == 0 || (scale < 309 &&
    Double.nearest value * Double.nearest (Nat.pow 10 scale.toNat) < Double.overflow)

end NumberParts

/-- A number as it is written. -/
structure Number where
  chars : List Char
  isNumber : (NumberParts.ofChars? chars).isSome = true

namespace Number

/-- Reads a number that takes up all the characters. -/
def ofChars? (chars : List Char) : Option Number :=
  if h : (NumberParts.ofChars? chars).isSome = true then some ⟨chars, h⟩ else none

/-- The natural number that a number names, if it is digits and nothing else. -/
def toNat? (number : Number) : Option Nat :=
  if number.chars.all Char.isDigit then some (Nat.ofDigitChars 10 number.chars 0) else none

/-- Whether a number is read as a finite double. -/
def isFinite (number : Number) : Bool :=
  (NumberParts.ofChars? number.chars).any NumberParts.isFinite

private theorem isDigit_toDigits (n : Nat) : ∀ c ∈ Nat.toDigits 10 n, c.isDigit = true :=
  fun _ h => Nat.isDigit_of_mem_toDigits (by decide) (by decide) h

theorem takeWhile_toDigits (n : Nat) :
    (Nat.toDigits 10 n).takeWhile Char.isDigit = Nat.toDigits 10 n := by
  have h := @List.takeWhile_append_of_pos _ Char.isDigit _ [] (isDigit_toDigits n)
  simpa only [List.append_nil, List.takeWhile_nil] using h

theorem dropWhile_toDigits (n : Nat) : (Nat.toDigits 10 n).dropWhile Char.isDigit = [] := by
  have h := @List.dropWhile_append_of_pos _ Char.isDigit _ [] (isDigit_toDigits n)
  simpa only [List.append_nil, List.dropWhile_nil] using h

theorem isNumber_toDigits (n : Nat) :
    (NumberParts.ofChars? (Nat.toDigits 10 n)).isSome = true := by
  have hs : NumberParts.ofChars? (Nat.toDigits 10 n)
      = NumberParts.ofSigned? false (Nat.toDigits 10 n) := by
    unfold NumberParts.ofChars?
    split
    · next chars h =>
      have := isDigit_toDigits n '-' (by simp [h])
      simp at this
    · rfl
  rw [hs]
  simp [NumberParts.ofSigned?, takeWhile_toDigits, dropWhile_toDigits,
    Decimal.isCanonical_toDigits, NumberParts.withFraction?, NumberParts.withExponent?]

/-- The number that writes a natural number. -/
def ofNat (n : Nat) : Number :=
  ⟨Nat.toDigits 10 n, isNumber_toDigits n⟩

@[simp] theorem toNat?_ofNat (n : Nat) : (ofNat n).toNat? = some n := by
  have h : (Nat.toDigits 10 n).all Char.isDigit = true := List.all_eq_true.2 (isDigit_toDigits n)
  simp [ofNat, toNat?, h]

end Number

end PayrollSeal.Json
