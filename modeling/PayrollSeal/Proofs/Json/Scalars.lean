import PayrollSeal.Json.Scalars
import PayrollSeal.Proofs.Decimal
import PayrollSeal.Proofs.Hex
import PayrollSeal.Proofs.Json.Rearranged

/-!
# Scalars are read back

Words, names, hashes and decimals are read back from what is written for them. A word also counts as
a finite number (`Number.isFinite_ofNat`), so all of them are plain.
-/

namespace PayrollSeal

/-! ## Doubles -/

namespace Double

/-- Doubles around a number of 64 bits lie less than `2 ^ 12` apart. -/
theorem spacing_lt {n : Nat} (h : n < 2 ^ 64) : spacing n < 2 ^ 12 := by
  have hlog : n.log2 < 64 := by
    by_cases hzero : n = 0
    · rw [hzero]
      decide
    · exact (Nat.log2_lt hzero).mpr h
  rw [spacing, Nat.one_shiftLeft]
  exact Nat.pow_lt_pow_right (by decide) (by omega)

/-- Rounding moves no number of 64 bits far enough to overflow. -/
theorem nearest_lt_overflow {n : Nat} (h : n < 2 ^ 64) : nearest n < overflow := by
  have hbound := (two_mul_nearest_bounds n).2
  have hspacing := spacing_lt h
  have hoverflow : 2 ^ 65 < overflow := by decide +kernel
  omega

end Double

namespace Json

/-! ## Numbers -/

namespace NumberParts

/-- A natural number is digits and nothing else. -/
theorem ofChars?_toDigits (n : Nat) :
    ofChars? (Nat.toDigits 10 n) = some ⟨false, Nat.toDigits 10 n, [], none⟩ := by
  have hdigit : ∀ c ∈ Nat.toDigits 10 n, c.isDigit = true :=
    List.all_eq_true.mp (Decimal.isCanonical_toDigits n).2.1
  have hsigned : ofChars? (Nat.toDigits 10 n) = ofSigned? false (Nat.toDigits 10 n) := by
    unfold ofChars?
    split
    · next chars heq =>
      have hsign := hdigit '-' (heq ▸ List.mem_cons_self)
      exact absurd hsign (by decide)
    · rfl
  rw [hsigned, ofSigned?]
  simp only [Number.takeWhile_toDigits, Number.dropWhile_toDigits, Decimal.isCanonical_toDigits,
    if_true]
  rfl

theorem le_ofDigitChars (digits : List Char) (value : Nat) :
    value ≤ Nat.ofDigitChars 10 digits value := by
  induction digits generalizing value with
  | nil => exact Nat.le_refl _
  | cons c digits ih =>
    rw [Nat.ofDigitChars_cons]
    refine Nat.le_trans ?_ (ih _)
    omega

/-- No digit is left over of a number that fits. -/
theorem readDigits_eq (digits : List Char) (value : Nat)
    (h : Nat.ofDigitChars 10 digits value < UInt64.size) :
    readDigits value digits = (Nat.ofDigitChars 10 digits value, []) := by
  induction digits generalizing value with
  | nil => rfl
  | cons c digits ih =>
    have hnext : value * 10 + (c.toNat - 48) = 10 * value + (c.toNat - '0'.toNat) := by
      rw [Nat.mul_comm]
      rfl
    rw [Nat.ofDigitChars_cons] at h ⊢
    have hfits : 10 * value + (c.toNat - '0'.toNat) < UInt64.size :=
      Nat.lt_of_le_of_lt (le_ofDigitChars digits _) h
    simp only [readDigits, hnext, if_pos hfits, ih _ h]

end NumberParts

/-- A number of 64 bits is read as a finite double: no digit of it is left over, and rounding does
not make it overflow. -/
theorem Number.isFinite_ofNat {n : Nat} (h : n < 2 ^ 64) : (ofNat n).isFinite = true := by
  have hsize : n < UInt64.size := h
  have hdigits : NumberParts.readDigits 0 (Nat.toDigits 10 n) = (n, []) := by
    rw [NumberParts.readDigits_eq, Nat.ofDigitChars_ten_toDigits]
    rwa [Nat.ofDigitChars_ten_toDigits]
  have hscaled : NumberParts.scaled ⟨false, Nat.toDigits 10 n, [], none⟩ = (n, 0) := by
    simp only [NumberParts.scaled, hdigits]
    rfl
  have hdouble : Double.nearest n * Double.nearest (Nat.pow 10 (0 : Int).toNat) <
      Double.overflow := by
    have hone : Double.nearest (Nat.pow 10 (0 : Int).toNat) = 1 := rfl
    rw [hone, Nat.mul_one]
    exact Double.nearest_lt_overflow h
  rw [isFinite, ofNat, NumberParts.ofChars?_toDigits, Option.any_some, NumberParts.isFinite, hscaled]
  show (n == 0 || (decide ((0 : Int) < 309) && decide (_ < Double.overflow))) = true
  rw [decide_eq_true hdouble]
  exact Bool.or_true _

/-- A natural number that a type can hold is read back. -/
theorem readNat_ofNat {n max : Nat} (h : n ≤ max) : readNat max (.ofNat n) = .ok n := by
  simp only [readNat, ofNat, Number.toNat?_ofNat, if_pos h]

theorem reads_uint8 (w : UInt8) : Reads readUInt8 (.ofNat w.toNat) w := by
  have hmax : w.toNat ≤ 0xFF := Nat.le_of_lt_succ w.toNat_lt
  refine reads_number_iff.mpr ?_
  show Nat.toUInt8 <$> readNat 0xFF (.ofNat w.toNat) = _
  rw [readNat_ofNat hmax]
  exact congrArg Except.ok UInt8.ofNat_toNat

theorem reads_uint16 (w : UInt16) : Reads readUInt16 (.ofNat w.toNat) w := by
  have hmax : w.toNat ≤ 0xFFFF := Nat.le_of_lt_succ w.toNat_lt
  refine reads_number_iff.mpr ?_
  show Nat.toUInt16 <$> readNat 0xFFFF (.ofNat w.toNat) = _
  rw [readNat_ofNat hmax]
  exact congrArg Except.ok UInt16.ofNat_toNat

theorem reads_uint32 (w : UInt32) : Reads readUInt32 (.ofNat w.toNat) w := by
  have hmax : w.toNat ≤ 0xFFFFFFFF := Nat.le_of_lt_succ w.toNat_lt
  refine reads_number_iff.mpr ?_
  show Nat.toUInt32 <$> readNat 0xFFFFFFFF (.ofNat w.toNat) = _
  rw [readNat_ofNat hmax]
  exact congrArg Except.ok UInt32.ofNat_toNat

/-! ## Names -/

/-- A value of a few named ones is read back from its name. -/
theorem reads_name {α : Type} {values : List α} {nameOf : α → String} {value : α}
    (h : ofName values nameOf (nameOf value) = .ok value) (blank : Blank) :
    Reads (readName values nameOf blank) (.ofString (nameOf value)) value :=
  reads_text_iff.mpr h

/-! ## Plain values -/

section

variable {depth : Nat}

@[simp]
theorem plain_ofString (s : String) : Plain depth (.ofString s) := .text s

@[simp]
theorem plain_uint8 (w : UInt8) : Plain depth (.ofNat w.toNat) :=
  .number (Number.isFinite_ofNat (Nat.lt_trans w.toNat_lt (by decide)))

@[simp]
theorem plain_uint16 (w : UInt16) : Plain depth (.ofNat w.toNat) :=
  .number (Number.isFinite_ofNat (Nat.lt_trans w.toNat_lt (by decide)))

@[simp]
theorem plain_uint32 (w : UInt32) : Plain depth (.ofNat w.toNat) :=
  .number (Number.isFinite_ofNat (Nat.lt_trans w.toNat_lt (by decide)))

theorem Plain.record {members : List (String × Json)}
    (h : ∀ member ∈ members, Plain depth member.2) : Plain (depth + 1) (.record members) := by
  refine .object ?_ ?_
  · exact List.forall_mem_map.mpr fun _ _ => rfl
  · exact List.forall_mem_map.mpr h

end

end Json

/-! ## Hashes and decimals -/

open Json (Plain Reads)

@[simp]
theorem Digest.plain_toJson {depth : Nat} (h : Digest) : Plain depth h.toJson :=
  Json.plain_ofString _

theorem Digest.reads_toJson (h : Digest) : Reads ofJson h.toJson h := by
  refine Json.reads_text_iff.mpr ?_
  show (ofHex h.toHex).mapError ReadError.refused = _
  rw [ofHex_toHex]
  rfl

@[simp]
theorem Decimal.plain_toJson {depth : Nat} (d : Decimal) : Plain depth d.toJson :=
  Json.plain_ofString _

theorem Decimal.reads_toJson (d : Decimal) : Reads ofJson d.toJson d := by
  refine Json.reads_text_iff.mpr ?_
  show (ofText d.text).mapError ReadError.refused = _
  rw [ofText_text]
  rfl

end PayrollSeal
