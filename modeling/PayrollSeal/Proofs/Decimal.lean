import Mathlib.Data.List.Induction
import Mathlib.Tactic.SplitIfs
import PayrollSeal.Json.Scalars

/-!
# Decimals are the natural numbers

Canonical digits are those that a natural number is written with (`toDigits_ofDigitChars`), so a text
is read exactly if it renders a number. All other texts are refused for the first of three reasons
that applies, and the offset of a character that is no digit is counted in bytes.
-/

namespace PayrollSeal

/-! ## Digits as bytes -/

namespace Bytes

/-- Whether a byte is an ASCII digit. -/
def isDigit (b : UInt8) : Bool := 0x30 ≤ b && b ≤ 0x39

theorem isDigit_ofNat {n : Nat} (h : n < 256) :
    isDigit (UInt8.ofNat n) = decide (48 ≤ n ∧ n ≤ 57) := by
  have hnat : (UInt8.ofNat n).toNat = n := UInt8.toNat_ofNat_of_lt' h
  rw [isDigit, Bool.decide_and]
  simp only [UInt8.le_iff_toNat_le, hnat]
  rfl

/-- The first byte of a character is a digit exactly if the character is one, and then it is the
only byte. -/
theorem exists_utf8EncodeChar_eq_cons (c : Char) :
    ∃ b rest, String.utf8EncodeChar c = b :: rest ∧ isDigit b = c.isDigit ∧
      (c.isDigit = true → rest = []) := by
  have hdigit : c.isDigit = decide (48 ≤ c.toNat ∧ c.toNat ≤ 57) := by
    rw [Bool.eq_iff_iff, Char.isDigit_iff_toNat, decide_eq_true_eq]
    rfl
  -- a character of several bytes is no digit, and neither is its first byte
  have hmany : ∀ (n : Nat) (rest : Bytes), n < 256 → 192 ≤ n → 127 < c.toNat →
      isDigit (UInt8.ofNat n) = c.isDigit ∧ (c.isDigit = true → rest = []) := by
    intro n rest hn hlow hc
    rw [isDigit_ofNat hn, hdigit, decide_eq_decide, decide_eq_true_eq]
    omega
  have hc : c.val.toNat = c.toNat := rfl
  unfold String.utf8EncodeChar
  simp only [hc]
  split_ifs with h1 h2 h3
  · exact ⟨_, _, rfl, (isDigit_ofNat (by omega)).trans hdigit.symm, fun _ => rfl⟩
  all_goals exact ⟨_, _, rfl, hmany _ _ (by omega) (by omega) (by omega)⟩

/-- The first byte that is no digit stands where the first character that is none does: the
characters before it take one byte each. -/
theorem findIdx?_ofText (text : String) :
    (ofText text).findIdx? (!isDigit ·) = text.toList.findIdx? (!Char.isDigit ·) := by
  unfold ofText
  induction text.toList with
  | nil => rfl
  | cons c chars ih =>
    obtain ⟨b, rest, hbytes, hdigit, hrest⟩ := exists_utf8EncodeChar_eq_cons c
    rw [List.flatMap_cons, hbytes, List.cons_append, List.findIdx?_cons, List.findIdx?_cons, hdigit]
    cases hc : c.isDigit with
    | true => simp only [hrest hc, List.nil_append, ih]
    | false => rfl

end Bytes

/-! ## Digits of numbers -/

/-- A digit is what its number is written with. -/
theorem toDigits_of_isDigit {c : Char} (h : c.isDigit = true) :
    c.toNat - 48 < 10 ∧ Nat.toDigits 10 (c.toNat - 48) = [c] := by
  obtain ⟨hlow, hhigh⟩ := Char.isDigit_iff_toNat.mp h
  simp only [Char.reduceToNat] at hlow hhigh
  have hlt : c.toNat - 48 < 10 := by omega
  refine ⟨hlt, ?_⟩
  have hnat : (Nat.digitChar (c.toNat - 48)).toNat = c.toNat := by
    rw [Nat.toNat_digitChar_of_lt_ten hlt]
    omega
  rw [Nat.toDigits_of_lt_base hlt, Char.toNat_inj.mp hnat]

/-- Canonical digits are those that the number they name is written with. -/
theorem IsCanonical.toDigits_ofDigitChars {digits : List Char} (h : IsCanonical digits) :
    Nat.toDigits 10 (Nat.ofDigitChars 10 digits 0) = digits := by
  obtain ⟨hne, hall, hzero⟩ := h
  induction digits using List.reverseRecOn with
  | nil => exact absurd rfl hne
  | append_singleton digits c ih =>
    rw [List.all_append, Bool.and_eq_true, List.all_cons, List.all_nil, Bool.and_true] at hall
    obtain ⟨hdigits, hc⟩ := hall
    obtain ⟨hlt, hlast⟩ := toDigits_of_isDigit hc
    have hvalue : Nat.ofDigitChars 10 (digits ++ [c]) 0 =
        10 * Nat.ofDigitChars 10 digits 0 + (c.toNat - 48) := by
      rw [Nat.ofDigitChars_append, Nat.ofDigitChars_cons, Nat.ofDigitChars_nil]
      rfl
    rw [hvalue]
    by_cases hempty : digits = []
    · subst hempty
      rw [Nat.ofDigitChars_nil, Nat.mul_zero, Nat.zero_add, hlast, List.nil_append]
    · -- a zero in front of the last digit would be a leading one
      have hhead : digits.head? ≠ some '0' := by
        intro hd
        have happend := hzero (by rw [List.head?_append, hd, Option.some_or])
        have hlen := congrArg List.length happend
        rw [List.length_append, List.length_singleton, List.length_singleton] at hlen
        exact hempty (List.length_eq_zero_iff.mp (by omega))
      have hinit := ih hempty hdigits (fun hd => absurd hd hhead)
      have hpos : 0 < Nat.ofDigitChars 10 digits 0 := by
        apply Nat.pos_of_ne_zero
        intro hn
        rw [hn, Nat.toDigits_zero] at hinit
        exact hhead (by rw [← hinit]; rfl)
      rw [← Nat.toDigits_append_toDigits (by decide) hpos hlt, hinit, hlast]

/-! ## Decimals -/

namespace Decimal

theorem ofText_text (d : Decimal) : ofText d.text = .ok d := by
  have hdigits : d.text.toList = d.digits := String.toList_ofList
  have hcanonical : IsCanonical d.text.toList := hdigits ▸ d.isCanonical
  rw [ofText, dif_pos hcanonical]
  exact congrArg Except.ok (Decimal.ext hdigits)

/-- A decimal is that of the number that it writes. -/
theorem ofNat_toNat (d : Decimal) : ofNat d.toNat = d :=
  Decimal.ext d.isCanonical.toDigits_ofDigitChars

theorem toNat_inj {d e : Decimal} : d.toNat = e.toNat ↔ d = e := by
  refine ⟨fun h => ?_, congrArg toNat⟩
  rw [← ofNat_toNat d, h, ofNat_toNat]

/-- The text of a decimal renders its number. -/
theorem text_ofNat (n : Nat) : (ofNat n).text = toString n :=
  Nat.toString_eq_ofList_toDigits.symm

/-- A rendering belongs to one number. -/
theorem toString_inj {m n : Nat} : toString m = toString n ↔ m = n := by
  refine ⟨fun h => ?_, congrArg toString⟩
  rw [← text_ofNat, ← text_ofNat] at h
  have hdigits : Nat.toDigits 10 m = Nat.toDigits 10 n := String.ofList_injective h
  rw [← Nat.ofDigitChars_ten_toDigits (n := m), hdigits, Nat.ofDigitChars_ten_toDigits]

theorem text_eq_toString (d : Decimal) : d.text = toString d.toNat := by
  rw [← text_ofNat, ofNat_toNat]

/-- A text is read as a decimal exactly if it renders the decimal's number. -/
theorem ofText_eq_ok_iff {text : String} {d : Decimal} :
    ofText text = .ok d ↔ text = toString d.toNat := by
  rw [← text_eq_toString]
  constructor
  · intro h
    unfold ofText at h
    split at h
    · cases h
      exact String.ofList_toList.symm
    · cases h
  · rintro rfl
    exact ofText_text d

/-! ## Refusals -/

/-- Why a text is no decimal: it is empty, else it has a byte that is no digit, else it is longer
than one digit and starts with a zero. -/
inductive Refused (text : String) : String → Prop
  | empty (h : text = "") : Refused text "empty string"
  | badByte {offset : Nat} (h : (Bytes.ofText text).findIdx? (!Bytes.isDigit ·) = some offset) :
    Refused text s!"non-digit character at offset {offset}"
  | leadingZero {rest : List Char} (hdigits : (Bytes.ofText text).findIdx? (!Bytes.isDigit ·) = none)
    (hzero : text.toList = '0' :: rest) (hrest : rest ≠ []) : Refused text "leading zero"

theorem findIdx?_eq_none_iff {digits : List Char} :
    digits.findIdx? (!Char.isDigit ·) = none ↔ digits.all Char.isDigit = true := by
  simp only [List.findIdx?_eq_none_iff, List.all_eq_true, Bool.not_eq_false']

theorem fault_of_findIdx? {digits : List Char} {offset : Nat}
    (h : digits.findIdx? (!Char.isDigit ·) = some offset) :
    ¬ IsCanonical digits ∧ fault digits = s!"non-digit character at offset {offset}" := by
  constructor
  · intro hcanonical
    rw [findIdx?_eq_none_iff.mpr hcanonical.2.1] at h
    cases h
  · have hne : digits ≠ [] := by
      rintro rfl
      cases h
    simp only [fault, List.isEmpty_eq_false_iff.mpr hne, h, Bool.false_eq_true, if_false]

theorem fault_of_leading_zero {digits rest : List Char}
    (hdigits : digits.findIdx? (!Char.isDigit ·) = none) (hzero : digits = '0' :: rest)
    (hrest : rest ≠ []) : ¬ IsCanonical digits ∧ fault digits = "leading zero" := by
  subst hzero
  constructor
  · intro hcanonical
    exact hrest (List.cons.inj (hcanonical.2.2 rfl)).2
  · simp only [fault, List.isEmpty_cons, hdigits, Bool.false_eq_true, if_false]

/-- Digits that are not canonical have a leading zero. -/
theorem exists_leading_zero {digits : List Char} (hne : digits ≠ [])
    (hdigits : digits.all Char.isDigit = true) (h : ¬ IsCanonical digits) :
    ∃ rest, digits = '0' :: rest ∧ rest ≠ [] := by
  have hzero : digits.head? = some '0' ∧ digits ≠ ['0'] := by
    by_contra hcon
    exact h ⟨hne, hdigits, fun hhead => by_contra fun halone => hcon ⟨hhead, halone⟩⟩
  obtain ⟨rest, rfl⟩ := List.head?_eq_some_iff.mp hzero.1
  exact ⟨rest, rfl, fun hrest => hzero.2 (congrArg _ hrest)⟩

/-- What is refused is what is not canonical, and the first reason that applies is named. -/
theorem refused_iff {text reason : String} :
    Refused text reason ↔ ¬ IsCanonical text.toList ∧ fault text.toList = reason := by
  constructor
  · intro h
    cases h with
    | empty h =>
      subst h
      exact ⟨fun hcanonical => hcanonical.1 rfl, rfl⟩
    | badByte h => exact fault_of_findIdx? ((Bytes.findIdx?_ofText text).symm.trans h)
    | leadingZero hdigits hzero hrest =>
      exact fault_of_leading_zero ((Bytes.findIdx?_ofText text).symm.trans hdigits) hzero hrest
  · rintro ⟨hcanonical, rfl⟩
    by_cases hempty : text.toList = []
    · rw [hempty]
      exact .empty (String.toList_eq_nil_iff.mp hempty)
    · cases hfind : text.toList.findIdx? (!Char.isDigit ·) with
      | some offset =>
        rw [(fault_of_findIdx? hfind).2]
        exact .badByte ((Bytes.findIdx?_ofText text).trans hfind)
      | none =>
        obtain ⟨rest, hzero, hrest⟩ :=
          exists_leading_zero hempty (findIdx?_eq_none_iff.mp hfind) hcanonical
        rw [(fault_of_leading_zero hfind hzero hrest).2]
        exact .leadingZero ((Bytes.findIdx?_ofText text).trans hfind) hzero hrest

theorem ofText_eq_error_iff {text : String} {rejection : Rejection} :
    ofText text = .error rejection ↔
      ∃ reason, Refused text reason ∧ rejection = .malformed "canonical_decimal" reason := by
  simp only [refused_iff]
  unfold ofText
  by_cases hcanonical : IsCanonical text.toList
  · simp [hcanonical]
  · simp [hcanonical, eq_comm]

/-! ## Reading -/

/-- A text is read exactly if it renders a natural number, of which there is one only, and as the
decimal of that number. So decimals are equal exactly if their numbers are, the text of a decimal is
read back, and a number is rendered alike whatever the width of the word that it comes in. All other
texts are refused, and values of JSON are read as their texts are. -/
theorem ofText_accepts_the_naturals :
    (∀ text, (∃ d, ofText text = .ok d) ↔ ∃! n : Nat, text = toString n) ∧
    (∀ text d, ofText text = .ok d ↔ text = toString d.toNat) ∧
    (∀ d e : Decimal, d = e ↔ d.toNat = e.toNat) ∧
    (∀ d : Decimal, ofText d.text = .ok d) ∧
    (∀ {v w : Nat} (x : BitVec v) (y : BitVec w),
      (ofNat x.toNat).toNat = x.toNat ∧ (ofNat x.toNat).text = toString x.toNat ∧
      ((ofNat x.toNat).text = (ofNat y.toNat).text ↔ x.toNat = y.toNat)) ∧
    (∀ text rejection, ofText text = .error rejection ↔
      ∃ reason, Refused text reason ∧ rejection = .malformed "canonical_decimal" reason) ∧
    ∀ text, ofJson (.ofString text) = (ofText text).mapError .refused := by
  refine ⟨fun text => ?_, fun _ _ => ofText_eq_ok_iff, fun _ _ => toNat_inj.symm, ofText_text,
    fun x y => ⟨toNat_ofNat _, text_ofNat _, ?_⟩, fun _ _ => ofText_eq_error_iff, fun _ => rfl⟩
  · constructor
    · rintro ⟨d, hd⟩
      obtain rfl := ofText_eq_ok_iff.mp hd
      exact ⟨d.toNat, rfl, fun _ hn => (toString_inj.mp hn).symm⟩
    · rintro ⟨n, rfl, -⟩
      exact ⟨ofNat n, ofText_eq_ok_iff.mpr (by rw [toNat_ofNat])⟩
  · rw [text_ofNat, text_ofNat, toString_inj]

example : ofText "12é" =
    .error (.malformed "canonical_decimal" "non-digit character at offset 2") := by
  cbv

end Decimal

end PayrollSeal
