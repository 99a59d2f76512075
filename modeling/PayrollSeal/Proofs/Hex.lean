import Mathlib.Tactic.IntervalCases
import PayrollSeal.Digest

/-!
# Bytes are read back from hex

Each half of a byte is written as one digit that names it, so bytes are read back from their digits
(`Hex.decode_encode`), and hashes from their text (`Digest.ofHex_toHex`).
-/

namespace PayrollSeal

namespace Hex

/-! ## Digits -/

/-- A digit names the half of a byte that it was written for. -/
theorem value?_digitChar {n : Nat} (h : n < 16) : value? (Nat.digitChar n) = some n.toUInt8 := by
  interval_cases n <;> rfl

theorem isLower_digitChar {n : Nat} (h : n < 16) : isLower (Nat.digitChar n) = true := by
  interval_cases n <;> rfl

theorem utf8Size_digitChar {n : Nat} (h : n < 16) : (Nat.digitChar n).utf8Size = 1 := by
  interval_cases n <;> rfl

/-- The halves of a byte. -/
theorem toNat_div_lt_and_mod_lt (b : UInt8) : b.toNat / 16 < 16 ∧ b.toNat % 16 < 16 := by
  have hb := b.toNat_lt
  omega

/-- A byte is put together from its halves. -/
theorem div_mul_add_mod_toUInt8 (b : UInt8) :
    (b.toNat / 16).toUInt8 * 16 + (b.toNat % 16).toUInt8 = b := by
  have hb := b.toNat_lt
  apply UInt8.toNat_inj.mp
  simp only [UInt8.toNat_add, UInt8.toNat_mul, Nat.toUInt8_eq, UInt8.toNat_ofNat', UInt8.reduceToNat]
  omega

/-! ## Bytes -/

/-- Bytes are written in lower case. -/
theorem isLower_of_mem_encode {bytes : Bytes} {c : Char} (h : c ∈ encode bytes) :
    isLower c = true := by
  obtain ⟨b, -, hc⟩ := List.mem_flatMap.mp h
  obtain ⟨hhigh, hlow⟩ := toNat_div_lt_and_mod_lt b
  rw [ofByte, List.mem_cons, List.mem_singleton] at hc
  rcases hc with rfl | rfl
  · exact isLower_digitChar hhigh
  · exact isLower_digitChar hlow

theorem utf8Length_encode (bytes : Bytes) :
    Bytes.utf8Length (encode bytes) = 2 * bytes.length := by
  induction bytes with
  | nil => rfl
  | cons b bytes ih =>
    obtain ⟨hhigh, hlow⟩ := toNat_div_lt_and_mod_lt b
    have hcons : Bytes.utf8Length (encode (b :: bytes)) = (Nat.digitChar (b.toNat / 16)).utf8Size +
        ((Nat.digitChar (b.toNat % 16)).utf8Size + Bytes.utf8Length (encode bytes)) := rfl
    rw [hcons, ih, utf8Size_digitChar hhigh, utf8Size_digitChar hlow, List.length_cons]
    omega

/-- Digits are read back pair by pair. -/
theorem decodeFrom_encode (position : Nat) (read bytes : Bytes) :
    decodeFrom position read (encode bytes) = .ok (read.reverse ++ bytes) := by
  induction bytes generalizing position read with
  | nil =>
    rw [List.append_nil]
    rfl
  | cons b bytes ih =>
    obtain ⟨hhigh, hlow⟩ := toNat_div_lt_and_mod_lt b
    have hcons : encode (b :: bytes) =
        Nat.digitChar (b.toNat / 16) :: Nat.digitChar (b.toNat % 16) :: encode bytes := rfl
    rw [hcons, decodeFrom, value?_digitChar hhigh, value?_digitChar hlow]
    show decodeFrom (position + 2) (_ :: read) (encode bytes) = _
    rw [ih, div_mul_add_mod_toUInt8, List.reverse_cons, List.append_assoc, List.singleton_append]

/-- Bytes are read back from their digits. -/
theorem decode_encode (bytes : Bytes) : decode (encode bytes) = .ok bytes := by
  have heven : ¬ Bytes.utf8Length (encode bytes) % 2 = 1 := by
    rw [utf8Length_encode]
    omega
  rw [decode, if_neg heven, decodeFrom_encode, List.reverse_nil, List.nil_append]

end Hex

namespace Digest

/-- The digits of bytes do not start with a mark. -/
theorem dropMark_encode (bytes : Bytes) : dropMark (Hex.encode bytes) = Hex.encode bytes := by
  unfold dropMark
  split
  · next digits heq =>
    have hx : 'x' ∈ Hex.encode bytes := by
      rw [heq]
      exact List.mem_cons_of_mem _ List.mem_cons_self
    exact absurd (Hex.isLower_of_mem_encode hx) (by decide)
  · rfl

/-- The digits of a hash are read back, with a mark in front of them or without. -/
theorem ofHex_of_dropMark_eq {text : String} {h : Digest}
    (hdigits : dropMark text.toList = Hex.encode h.bytes) : ofHex text = .ok h := by
  have hlength : Bytes.utf8Length (Hex.encode h.bytes) = 2 * digestLength := by
    rw [Hex.utf8Length_encode, h.length_bytes]
  have hlower : (Hex.encode h.bytes).all Hex.isLower = true :=
    List.all_eq_true.mpr fun _ hc => Hex.isLower_of_mem_encode hc
  have hbytes : ofBytes "bytes32" h.bytes = .ok h := dif_pos h.length_bytes
  unfold ofHex
  simp only [hdigits, hlength, ne_eq, not_true_eq_false, if_false, hlower, Bool.not_true,
    Bool.false_eq_true, Hex.decode_encode, hbytes]

/-- A hash is read back from its text. -/
theorem ofHex_toHex (h : Digest) : ofHex h.toHex = .ok h :=
  ofHex_of_dropMark_eq (by rw [toHex, String.toList_ofList, dropMark_encode])

end Digest

end PayrollSeal
