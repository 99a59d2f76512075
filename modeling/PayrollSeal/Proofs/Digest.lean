import Mathlib.Data.List.Induction
import PayrollSeal.Proofs.Hex

/-!
# Hash text is read exactly

Lower-case digits in pairs are the digits of bytes (`Hex.isLower_and_length_iff`), so what the length
and the case of a text let through is the text of a hash, and the digits themselves are never
refused.
-/

namespace PayrollSeal

/-! ## Digits -/

namespace Hex

/-- Every lower-case digit names half a byte. -/
theorem exists_digitChar_eq {c : Char} (h : isLower c = true) :
    ∃ n < 16, Nat.digitChar n = c := by
  have hall : ∀ m < 103, 48 ≤ m ∧ m ≤ 57 ∨ 97 ≤ m → ∃ n < 16, Nat.digitChar n = Char.ofNat m := by
    decide
  rw [isLower, Bool.or_eq_true, Char.isDigit_iff_toNat, Bool.and_eq_true, decide_eq_true_eq,
    decide_eq_true_eq, Char.le_def, Char.le_def, UInt32.le_iff_toNat_le, UInt32.le_iff_toNat_le] at h
  have hrange : (48 ≤ c.toNat ∧ c.toNat ≤ 57) ∨ (97 ≤ c.toNat ∧ c.toNat ≤ 102) := h
  obtain ⟨n, hn, hchar⟩ := hall c.toNat (by omega) (by omega)
  exact ⟨n, hn, by rw [hchar, Char.ofNat_toNat]⟩

/-- Two digits are those of one byte. -/
theorem exists_ofByte_eq {m n : Nat} (hm : m < 16) (hn : n < 16) :
    ∃ b, ofByte b = [Nat.digitChar m, Nat.digitChar n] := by
  have hnat : (UInt8.ofNat (m * 16 + n)).toNat = m * 16 + n :=
    UInt8.toNat_ofNat_of_lt' (show m * 16 + n < 256 by omega)
  have hhigh : (m * 16 + n) / 16 = m := by omega
  have hlow : (m * 16 + n) % 16 = n := by omega
  exact ⟨UInt8.ofNat (m * 16 + n), by rw [ofByte, hnat, hhigh, hlow]⟩

/-- Lower-case digits in pairs are the digits of bytes. -/
theorem exists_encode_eq {digits : List Char} (hlower : digits.all isLower = true)
    (heven : digits.length % 2 = 0) : ∃ bytes, encode bytes = digits := by
  induction digits using List.twoStepInduction with
  | nil => exact ⟨[], rfl⟩
  | singleton c => cases heven
  | cons_cons c d digits ih =>
    simp only [List.all_cons, Bool.and_eq_true] at hlower
    obtain ⟨hc, hd, hdigits⟩ := hlower
    obtain ⟨m, hm, rfl⟩ := exists_digitChar_eq hc
    obtain ⟨n, hn, rfl⟩ := exists_digitChar_eq hd
    obtain ⟨b, hb⟩ := exists_ofByte_eq hm hn
    rw [List.length_cons, List.length_cons] at heven
    obtain ⟨bytes, rfl⟩ := ih hdigits (by omega)
    exact ⟨b :: bytes, by rw [encode, List.flatMap_cons, hb]; rfl⟩

/-- A digit takes one byte. -/
theorem utf8Length_of_all_isLower {digits : List Char} (hlower : digits.all isLower = true) :
    Bytes.utf8Length digits = digits.length := by
  induction digits with
  | nil => rfl
  | cons c digits ih =>
    rw [List.all_cons, Bool.and_eq_true] at hlower
    obtain ⟨n, hn, rfl⟩ := exists_digitChar_eq hlower.1
    have hcons : Bytes.utf8Length (Nat.digitChar n :: digits) =
        (Nat.digitChar n).utf8Size + Bytes.utf8Length digits := rfl
    rw [hcons, utf8Size_digitChar hn, ih hlower.2, List.length_cons, Nat.add_comm]

/-- What takes twice as many bytes and is in lower case are the digits of bytes, which are read. -/
theorem isLower_and_length_iff {digits : List Char} (n : Nat) :
    (Bytes.utf8Length digits = 2 * n ∧ digits.all isLower = true) ↔
      ∃ bytes : Bytes, decode digits = .ok bytes ∧ bytes.length = n ∧ encode bytes = digits := by
  constructor
  · rintro ⟨hlen, hlower⟩
    rw [utf8Length_of_all_isLower hlower] at hlen
    obtain ⟨bytes, rfl⟩ := exists_encode_eq hlower (by omega)
    rw [length_encode] at hlen
    exact ⟨bytes, decode_encode bytes, by omega, rfl⟩
  · rintro ⟨bytes, -, rfl, rfl⟩
    exact ⟨utf8Length_encode bytes, List.all_eq_true.mpr fun _ hc => isLower_of_mem_encode hc⟩

end Hex

/-- The bytes of a text are those of its characters. -/
theorem Bytes.utf8Length_toList (text : String) : utf8Length text.toList = text.utf8ByteSize := by
  calc utf8Length text.toList = (ofText text).length := (length_ofText text).symm
    _ = text.toList.utf8Encode.size := by rw [List.utf8Encode, List.size_toByteArray]; rfl
    _ = text.utf8ByteSize := by rw [← String.toByteArray_ofList, String.ofList_toList]; rfl

namespace Digest

/-! ## Marks -/

/-- The digits of a text: what stands behind one mark, or all of a text without one. -/
inductive Unmarked : String → String → Prop
  | marked (digits : String) : Unmarked ("0x" ++ digits) digits
  | plain {text : String} (h : ¬ "0x".toList <+: text.toList) : Unmarked text text

theorem dropMark_eq_self {chars : List Char} (h : ¬ "0x".toList <+: chars) :
    dropMark chars = chars := by
  unfold dropMark
  split
  · next digits => exact absurd (List.prefix_append ['0', 'x'] digits) h
  · rfl

theorem Unmarked.toList_eq {text digits : String} (h : Unmarked text digits) :
    digits.toList = dropMark text.toList := by
  cases h with
  | marked => rw [String.toList_append]; rfl
  | plain h => exact (dropMark_eq_self h).symm

theorem exists_unmarked (text : String) : ∃ digits, Unmarked text digits := by
  by_cases h : "0x".toList <+: text.toList
  · obtain ⟨digits, hdigits⟩ := h
    have htext : "0x" ++ String.ofList digits = text := by
      rw [← String.toList_inj, String.toList_append, ← hdigits]
      exact congrArg _ String.toList_ofList
    exact ⟨String.ofList digits, htext ▸ .marked _⟩
  · exact ⟨text, .plain h⟩

/-- The digits of a hash are its text, with a mark in front of it or without. -/
theorem dropMark_eq_encode_iff {text : String} {h : Digest} :
    dropMark text.toList = Hex.encode h.bytes ↔ text = h.toHex ∨ text = "0x" ++ h.toHex := by
  obtain ⟨digits, hdigits⟩ := exists_unmarked text
  constructor
  · intro heq
    rw [← hdigits.toList_eq] at heq
    have hhex : digits = h.toHex := by
      rw [toHex, ← heq, String.ofList_toList]
    cases hdigits with
    | marked => exact .inr (by rw [hhex])
    | plain => exact .inl hhex
  · rintro (rfl | rfl)
    · rw [toHex, String.toList_ofList, dropMark_encode]
    · rw [String.toList_append]
      exact String.toList_ofList

/-! ## Refusals -/

/-- Why a text is no hash: its digits do not take 64 bytes, or else they are not all in lower
case. -/
inductive Refused (text : String) : String → Prop
  | length {digits : String} (h : Unmarked text digits) (hlength : digits.utf8ByteSize ≠ 64) :
    Refused text s!"expected 64 hex chars, got {digits.utf8ByteSize}"
  | notLower {digits : String} (h : Unmarked text digits) (hlength : digits.utf8ByteSize = 64)
    (hlower : digits.toList.all Hex.isLower = false) : Refused text "must be lowercase hex"

/-- The length of the digits is looked at first, then their case, and nothing else is refused. -/
theorem ofHex_cases {text digits : String} (h : Unmarked text digits) :
    (digits.utf8ByteSize ≠ 64 ∧ ofHex text =
      .error (.malformed "bytes32" s!"expected 64 hex chars, got {digits.utf8ByteSize}")) ∨
    (digits.utf8ByteSize = 64 ∧ digits.toList.all Hex.isLower = false ∧
      ofHex text = .error (.malformed "bytes32" "must be lowercase hex")) ∨
    ∃ hash : Digest, digits = hash.toHex ∧ ofHex text = .ok hash := by
  rw [← Bytes.utf8Length_toList, h.toList_eq]
  by_cases hlength : Bytes.utf8Length (dropMark text.toList) = 64
  · cases hlower : (dropMark text.toList).all Hex.isLower with
    | false =>
      refine .inr (.inl ⟨hlength, rfl, ?_⟩)
      unfold ofHex
      simp [hlength, hlower, digestLength]
    | true =>
      obtain ⟨bytes, -, hbytes, hdigits⟩ :=
        Hex.isLower_and_length_iff 32 |>.mp ⟨hlength, hlower⟩
      refine .inr (.inr ⟨⟨bytes, hbytes⟩, ?_, ofHex_of_dropMark_eq hdigits.symm⟩)
      rw [toHex, hdigits, ← h.toList_eq, String.ofList_toList]
  · refine .inl ⟨hlength, ?_⟩
    unfold ofHex
    simp [hlength, digestLength]

/-- The text of a hash is 64 lower-case digits. -/
theorem isLower_and_length_toHex (h : Digest) :
    h.toHex.utf8ByteSize = 64 ∧ h.toHex.toList.all Hex.isLower = true := by
  rw [← Bytes.utf8Length_toList, toHex, String.toList_ofList]
  exact (Hex.isLower_and_length_iff 32).mpr ⟨_, Hex.decode_encode _, h.length_bytes, rfl⟩

/-- A text is read as a hash exactly if it is the hash's, with a mark in front or without. -/
theorem ofHex_eq_ok_iff {text : String} {h : Digest} :
    ofHex text = .ok h ↔ text = h.toHex ∨ text = "0x" ++ h.toHex := by
  rw [← dropMark_eq_encode_iff]
  refine ⟨fun hok => ?_, ofHex_of_dropMark_eq⟩
  obtain ⟨digits, hdigits⟩ := exists_unmarked text
  rcases ofHex_cases hdigits with ⟨-, herror⟩ | ⟨-, -, herror⟩ | ⟨hash, hhex, hhash⟩
  · cases herror.symm.trans hok
  · cases herror.symm.trans hok
  · cases hhash.symm.trans hok
    rw [← hdigits.toList_eq, hhex, toHex, String.toList_ofList]

theorem ofHex_eq_error_iff {text : String} {rejection : Rejection} :
    ofHex text = .error rejection ↔
      ∃ reason, Refused text reason ∧ rejection = .malformed "bytes32" reason := by
  constructor
  · intro h
    obtain ⟨digits, hdigits⟩ := exists_unmarked text
    rcases ofHex_cases hdigits with ⟨hlength, herror⟩ | ⟨hlength, hlower, herror⟩ | ⟨hash, -, hhash⟩
    · cases herror.symm.trans h
      exact ⟨_, .length hdigits hlength, rfl⟩
    · cases herror.symm.trans h
      exact ⟨_, .notLower hdigits hlength hlower, rfl⟩
    · cases hhash.symm.trans h
  · rintro ⟨reason, hreason, rfl⟩
    cases hreason with
    | length hdigits hlength =>
      rcases ofHex_cases hdigits with ⟨-, herror⟩ | ⟨hlength', -⟩ | ⟨hash, rfl, -⟩
      · exact herror
      · exact absurd hlength' hlength
      · exact absurd hash.isLower_and_length_toHex.1 hlength
    | notLower hdigits hlength hlower =>
      rcases ofHex_cases hdigits with ⟨hlength', -⟩ | ⟨-, -, herror⟩ | ⟨hash, rfl, -⟩
      · exact absurd hlength hlength'
      · exact herror
      · rw [hash.isLower_and_length_toHex.2] at hlower
        cases hlower

/-! ## Reading -/

/-- A text is read as a hash exactly if it is the hash's, which has 64 lower-case digits, with one
mark in front or without. All other texts are refused, for the number of bytes that their digits
take or else for their case: digits that pass both checks are always those of 32 bytes. -/
theorem ofHex_reads_exactly_toHex :
    (∀ text h, ofHex text = .ok h ↔ text = h.toHex ∨ text = "0x" ++ h.toHex) ∧
    (∀ h : Digest, h.toHex.length = 64 ∧
      h.toHex.toList.all (fun c => '0' ≤ c && c ≤ '9' || 'a' ≤ c && c ≤ 'f') = true) ∧
    (∀ text rejection, ofHex text = .error rejection ↔
      ∃ reason, Refused text reason ∧ rejection = .malformed "bytes32" reason) ∧
    ∀ digits : List Char, (Bytes.utf8Length digits = 64 ∧ digits.all Hex.isLower = true) ↔
      ∃ bytes : Bytes, Hex.decode digits = .ok bytes ∧ bytes.length = 32 ∧
        Hex.encode bytes = digits := by
  refine ⟨fun _ _ => ofHex_eq_ok_iff, fun h => ⟨?_, h.isLower_and_length_toHex.2⟩,
    fun _ _ => ofHex_eq_error_iff, fun _ => Hex.isLower_and_length_iff 32⟩
  rw [toHex, String.length_ofList, Hex.length_encode, h.length_bytes]
  rfl

-- 64 bytes, but 32 characters
example : ofHex (String.ofList (List.replicate 32 'é')) =
    .error (.malformed "bytes32" "must be lowercase hex") := by
  cbv

end Digest

end PayrollSeal
