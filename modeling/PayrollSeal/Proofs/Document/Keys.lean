import Mathlib.Data.Prod.Lex
import Mathlib.Data.String.Basic
import PayrollSeal.Proofs.Document.Order
import PayrollSeal.Proofs.Hex

/-!
# The order of receipts as it is read

Digits stand in the order of the halves of bytes that they name, so hashes are in the order of their
texts (`Digest.compare_toHex`), and receipts are in the order of what is read of them
(`Receipt.order_eq_compare_keys`).
-/

namespace PayrollSeal

open Std

/-! ## Hashes -/

namespace Hex

/-- Digits stand in the order of the numbers that they name: `9` comes before `a`. -/
theorem digitChar_lt {m n : Nat} (hn : n < 16) (h : m < n) :
    Nat.digitChar m < Nat.digitChar n := by
  have hall : ∀ n < 16, ∀ m < n, Nat.digitChar m < Nat.digitChar n := by decide
  exact hall n hn m h

/-- The smaller byte has the smaller digits, whatever follows. -/
theorem ofByte_append_lt {b c : UInt8} (h : b < c) (x y : List Char) :
    ofByte b ++ x < ofByte c ++ y := by
  obtain ⟨hchigh, hclow⟩ := toNat_div_lt_and_mod_lt c
  have hlt : b.toNat < c.toNat := UInt8.lt_iff_toNat_lt.mp h
  by_cases hhigh : b.toNat / 16 = c.toNat / 16
  · -- the bytes differ in the lower half alone
    have hlow : b.toNat % 16 < c.toNat % 16 := by omega
    rw [ofByte, ofByte, hhigh]
    exact .cons (.rel (digitChar_lt hclow hlow))
  · have hhigh : b.toNat / 16 < c.toNat / 16 := by omega
    exact .rel (digitChar_lt hchigh hhigh)

/-- Bytes are in the order of their digits. -/
theorem encode_lt {x y : Bytes} (h : compare x y = .lt) : encode x < encode y := by
  induction x generalizing y with
  | nil =>
    cases y with
    | nil => cases h
    | cons c y => exact .nil
  | cons b x ih =>
    cases y with
    | nil => cases h
    | cons c y =>
      rw [List.compare_cons_cons, Ordering.then_eq_lt] at h
      rcases h with h | ⟨heq, h⟩
      · exact ofByte_append_lt (LawfulLTCmp.eq_lt_iff_lt.mp h) (encode x) (encode y)
      · obtain rfl : b = c := LawfulEqCmp.eq_of_compare heq
        exact .cons (.cons (ih h))

end Hex

/-- Hashes are in the order of their texts. -/
theorem Digest.compare_toHex (g h : Digest) : compare g.toHex h.toHex = compare g h := by
  have hlt : ∀ {g h : Digest}, compare g h = .lt → compare g.toHex h.toHex = .lt := by
    intro g h hcompare
    apply LawfulLTCmp.eq_lt_iff_lt.mpr
    rw [String.lt_iff_toList_lt, toHex, toHex, String.toList_ofList, String.toList_ofList]
    exact Hex.encode_lt hcompare
  -- both comparisons are antisymmetric, so the other outcomes follow from this one
  cases hcompare : compare g h with
  | lt => exact hlt hcompare
  | eq =>
    obtain rfl : g = h := LawfulEqCmp.eq_of_compare hcompare
    exact ReflCmp.compare_self
  | gt => exact OrientedCmp.gt_of_lt (hlt (OrientedCmp.lt_of_gt hcompare))

/-! ## Receipts -/

namespace Receipt

/-- What is read of a receipt: the height of its anchor, the texts of the anchor's hash and of the
hash of the inputs, and the tag of its kind. The first of them that differs decides. -/
def keys (receipt : Receipt) : Nat ×ₗ String ×ₗ String ×ₗ Nat :=
  toLex (receipt.anchor.height.toNat, toLex (receipt.anchor.hash.toHex,
    toLex (receipt.inputsHash.toHex, receipt.kind.tag.toNat)))

theorem compare_height (a b : UInt32) : compare a.toNat b.toNat = compare a b := by
  simp only [compare, compareOfLessAndEq, UInt32.lt_iff_toNat_lt, UInt32.toNat_inj]

theorem compare_tag (a b : UInt8) : compare a.toNat b.toNat = compare a b := by
  simp only [compare, compareOfLessAndEq, UInt8.lt_iff_toNat_lt, UInt8.toNat_inj]

theorem compare_keys (a b : Receipt) : compare a.keys b.keys = a.order b := by
  rw [order, ← Digest.compare_toHex, ← Digest.compare_toHex, ← compare_height, ← compare_tag]
  rfl

/-- Receipts are in the order of what is read of them, with the texts of hashes in the order of
strings, though the bytes of hashes are compared. The order ties a receipt with itself alone,
changes sides with its arguments, and is transitive. -/
theorem order_eq_compare_keys (a b c : Receipt) :
    a.order b = compare a.keys b.keys ∧
      (a.order b = .eq ↔ a = b) ∧
      b.order a = (a.order b).swap ∧
      (a.order b = .lt → b.order c = .lt → a.order c = .lt) :=
  ⟨(compare_keys a b).symm, LawfulEqCmp.compare_eq_iff_eq, OrientedCmp.eq_swap, TransCmp.lt_trans⟩

/-- The hash of the anchor decides before the kind, and the digit `0` stands before the letter `a`
though the letter `f` follows it. -/
theorem order_reversal_paystub_lt :
    order ⟨⟨.filled 0x0f, 7⟩, .zero, .reversal⟩ ⟨⟨.filled 0xa0, 7⟩, .zero, .paystub⟩ = .lt ∧
      order ⟨⟨.filled 0xa0, 7⟩, .zero, .paystub⟩ ⟨⟨.filled 0xa0, 7⟩, .zero, .reversal⟩ = .lt ∧
      order ⟨⟨.filled 0x0f, 7⟩, .zero, .reversal⟩ ⟨⟨.filled 0xa0, 7⟩, .zero, .reversal⟩ = .lt ∧
      compare (keys ⟨⟨.filled 0x0f, 7⟩, .zero, .reversal⟩)
        (keys ⟨⟨.filled 0xa0, 7⟩, .zero, .reversal⟩) = .lt := by
  have hanchor : order ⟨⟨.filled 0x0f, 7⟩, .zero, .reversal⟩
      ⟨⟨.filled 0xa0, 7⟩, .zero, .paystub⟩ = .lt := by decide
  have hkind : order ⟨⟨.filled 0xa0, 7⟩, .zero, .paystub⟩
      ⟨⟨.filled 0xa0, 7⟩, .zero, .reversal⟩ = .lt := by decide
  have hlt := (order_eq_compare_keys _ _ _).2.2.2 hanchor hkind
  exact ⟨hanchor, hkind, hlt, (compare_keys _ _).trans hlt⟩

end Receipt

end PayrollSeal
