import PayrollSeal.Bytes
import PayrollSeal.Rejection

/-!
# Canonical decimals

A natural number of any size as its decimal digits without leading zeros. Money amounts and
field elements are carried in this form, so a number has one text whatever its width.
-/

namespace PayrollSeal

/-- Digits that write a natural number: at least one, and no leading zero but in `0` itself. -/
def IsCanonical (digits : List Char) : Prop :=
  digits ≠ [] ∧ digits.all Char.isDigit = true ∧ (digits.head? = some '0' → digits = ['0'])

instance (digits : List Char) : Decidable (IsCanonical digits) := by
  unfold IsCanonical
  infer_instance

/-- A natural number as its canonical decimal digits. -/
@[ext]
structure Decimal where
  digits : List Char
  isCanonical : IsCanonical digits
deriving DecidableEq

namespace Decimal

/-- The digits of a natural number start with a zero only if it is zero. -/
theorem head?_toDigits (n : Nat) :
    (Nat.toDigits 10 n).head? = some '0' → Nat.toDigits 10 n = ['0'] := by
  induction n using Nat.strongRecOn with
  | ind n ih =>
    by_cases h : n < 10
    · rw [Nat.toDigits_of_lt_base h]
      simp
    · rw [Nat.toDigits_of_base_le (by decide) (by omega)]
      intro hd
      obtain ⟨d, ds, hds⟩ := List.exists_cons_of_ne_nil (Nat.toDigits_ne_nil (n := n / 10) (b := 10))
      have hz := ih (n / 10) (by omega) (by simpa [hds] using hd)
      have hv : n / 10 = 0 := by
        rw [← Nat.ofDigitChars_ten_toDigits (n := n / 10), hz]
        rfl
      omega

theorem isCanonical_toDigits (n : Nat) : IsCanonical (Nat.toDigits 10 n) :=
  ⟨Nat.toDigits_ne_nil,
    List.all_eq_true.2 fun _ h => Nat.isDigit_of_mem_toDigits (by decide) (by decide) h,
    head?_toDigits n⟩

/-- The decimal of a natural number. -/
def ofNat (n : Nat) : Decimal :=
  ⟨Nat.toDigits 10 n, isCanonical_toDigits n⟩

/-- The decimal `0`. -/
def zero : Decimal := ofNat 0

/-- The number that a decimal writes. -/
def toNat (d : Decimal) : Nat :=
  Nat.ofDigitChars 10 d.digits 0

/-- The digits as text. -/
def text (d : Decimal) : String :=
  String.ofList d.digits

/-- The digits as bytes, which is what an encoding holds. -/
def bytes (d : Decimal) : Bytes :=
  d.digits.map fun c => c.toNat.toUInt8

/-- Why digits are not canonical: they are empty, hold another character, or have a leading zero. -/
def fault (digits : List Char) : String :=
  if digits.isEmpty then "empty string"
  else
    match digits.findIdx? (!Char.isDigit ·) with
    | some offset => s!"non-digit character at offset {offset}"
    | none => "leading zero"

/-- Reads decimal text; nothing is trimmed. -/
def ofText (text : String) : Except Rejection Decimal :=
  if h : IsCanonical text.toList then .ok ⟨text.toList, h⟩
  else .error (.malformed "canonical_decimal" (fault text.toList))

@[simp] theorem toNat_ofNat (n : Nat) : (ofNat n).toNat = n := by
  simp [ofNat, toNat]

@[simp] theorem length_bytes (d : Decimal) : d.bytes.length = d.digits.length := by
  simp [bytes]

end Decimal

end PayrollSeal
