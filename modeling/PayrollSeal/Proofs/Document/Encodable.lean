import Mathlib.Algebra.Ring.Nat
import PayrollSeal.Document.Encode
import PayrollSeal.Proofs.Layout

/-!
# Which documents can be encoded

Decimals are the only values of an object that can be too long, so the first decimal that is
decides the rejection (`Object.ofLayout_eq_of_decimals`). Receipts hold no decimals, and inputs are
rejected for their number alone (`Inputs.encode_eq`).
-/

namespace PayrollSeal

/-! ## Decimals -/

namespace Decimal

/-- Why a decimal cannot be written, if it cannot: it has too many digits. -/
def refusal? (d : Decimal) : Option Rejection :=
  Chunk.refusal? ⟨.units, d.bytes⟩

theorem refusal?_eq (d : Decimal) :
    d.refusal? = if d.bytes.length ≤ 65535 then none
      else some (.outOfRange "tlv_length" d.bytes.length 16) :=
  rfl

/-- No decimal of a list is refused exactly if none is too long. -/
theorem findSome?_refusal?_eq_none_iff {decimals : List Decimal} :
    decimals.findSome? refusal? = none ↔ ∀ d ∈ decimals, d.bytes.length ≤ 65535 := by
  have hfits : ∀ d : Decimal, d.refusal? = none ↔ d.bytes.length ≤ 65535 := fun d =>
    Chunk.refusal?_eq_none_iff
  simp only [List.findSome?_eq_none_iff, hfits]

end Decimal

/-! ## Layouts -/

/-- The decimals of a field in the order of their bytes. -/
def Field.decimals : Field → List Decimal
  | element value => [value]
  | units value => [value]
  | amounts a => a.toList
  | _ => []

/-- Nothing is refused of a field but its decimals. -/
theorem Field.findSome?_refusal?_chunks (field : Field) :
    field.chunks.findSome? Chunk.refusal? = field.decimals.findSome? Decimal.refusal? := by
  have hhash : ∀ value : Digest, Chunk.refusal? ⟨.hash, value.bytes⟩ = none := fun value =>
    Chunk.refusal?_eq_none_iff.mpr (Chunk.fits_hash value)
  cases field with
  | hash value =>
    simp only [chunks, writes, List.map_cons, List.map_nil, Write.content, List.findSome?_cons,
      hhash]
    rfl
  | anchor a =>
    simp only [chunks, writes, List.map_cons, List.map_nil, Write.content, List.findSome?_cons,
      hhash]
    rfl
  | _ => rfl

namespace Layout

/-- The decimals of a layout in the order of their bytes. -/
def decimals (layout : Layout) : List Decimal :=
  layout.flatMap Field.decimals

theorem findSome?_refusal?_chunks (layout : Layout) :
    (chunks layout).findSome? Chunk.refusal? = (decimals layout).findSome? Decimal.refusal? := by
  induction layout with
  | nil => rfl
  | cons field layout ih =>
    rw [chunks, decimals, List.flatMap_cons, List.flatMap_cons, List.findSome?_append,
      List.findSome?_append, Field.findSome?_refusal?_chunks]
    exact congrArg _ ih

end Layout

/-- An object is the bytes of its layout, unless a decimal is too long: the first such decimal
decides the rejection. -/
theorem Object.ofLayout_eq_of_decimals (kind : Object.Kind) (layout : Layout) :
    ofLayout kind layout =
      ((Layout.decimals layout).findSome? Decimal.refusal?).elim (.ok (bytes kind layout))
        .error := by
  rw [ofLayout_eq, Layout.findSome?_refusal?_chunks]

/-! ## Inputs -/

namespace Inputs

/-- Receipts hold no decimals. -/
theorem decimals_layout (inputs : Inputs) (count : UInt32) :
    Layout.decimals (inputs.layout count) = [] := by
  rw [Layout.decimals, layout, List.flatMap_append, List.flatMap_assoc, List.append_eq_nil_iff]
  refine ⟨rfl, List.flatMap_eq_nil_iff.mpr fun receipt _ => rfl⟩

/-- Why inputs are rejected, if they are: there are no receipts, or too many for the count. -/
def refusal? (inputs : Inputs) : Option Rejection :=
  if inputs.receipts = [] then some (.unusable "inputs set must contain at least one item")
  else if 2 ^ 32 - 1 < inputs.receipts.length then
    some (.outOfRange "item_count" inputs.receipts.length 32)
  else none

theorem refusal?_eq_none_iff {inputs : Inputs} :
    inputs.refusal? = none ↔
      inputs.receipts ≠ [] ∧ inputs.receipts.length ≤ IntType.u32.max := by
  have hmax : IntType.u32.max = 2 ^ 32 - 1 := rfl
  unfold refusal?
  split_ifs with hempty hlen
  · simp only [hempty, ne_eq, not_true_eq_false, false_and]
  · simp only [hmax, Nat.not_le.mpr hlen, and_false]
  · simp only [hmax, ne_eq, hempty, not_false_eq_true, Nat.le_of_not_lt hlen, and_self]

/-- The canonical bytes of inputs that are not rejected. -/
def bytes (inputs : Inputs) : Bytes :=
  Object.bytes .inputs (inputs.layout inputs.receipts.length.toUInt32)

theorem ofLayout_eq (inputs : Inputs) :
    Object.ofLayout .inputs (inputs.layout inputs.receipts.length.toUInt32) = .ok inputs.bytes := by
  rw [Object.ofLayout_eq_of_decimals, decimals_layout]
  rfl

/-- Inputs are rejected for the number of their receipts, and for nothing else. -/
theorem encode_eq (inputs : Inputs) :
    inputs.encode = inputs.refusal?.elim (.ok inputs.bytes) .error := by
  unfold encode refusal? IntType.fit
  by_cases hempty : inputs.receipts = []
  · simp only [hempty, List.isEmpty_nil, if_true]
    rfl
  · by_cases hlen : inputs.receipts.length ≤ IntType.u32.max
    · have hmax : ¬ 2 ^ 32 - 1 < inputs.receipts.length := Nat.not_lt.mpr hlen
      simp only [List.isEmpty_iff, hempty, if_false, hlen, if_true, hmax]
      exact inputs.ofLayout_eq
    · have hmax : 2 ^ 32 - 1 < inputs.receipts.length := Nat.lt_of_not_le hlen
      simp only [List.isEmpty_iff, hempty, if_false, hlen, hmax, if_true]
      rfl

/-- The hash of inputs that are not rejected. -/
def digest (inputs : Inputs) : Digest :=
  Domain.inputs.hash inputs.bytes

theorem hash_eq (inputs : Inputs) :
    inputs.hash = inputs.refusal?.elim (.ok inputs.digest) .error := by
  rw [hash, encode_eq]
  cases inputs.refusal? <;> rfl

end Inputs

end PayrollSeal
