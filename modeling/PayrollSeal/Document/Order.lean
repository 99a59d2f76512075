import PayrollSeal.Document.Basic

/-!
# The order of receipts

Receipts are ordered by the height of the anchor, then by its hash, then by the hash of the
payroll inputs, then by kind. Receipts that differ never tie, so a set of them has one
arrangement.
-/

namespace PayrollSeal.Receipt

/-- Compares two receipts in canonical order. -/
def order (a b : Receipt) : Ordering :=
  (compare a.anchor.height b.anchor.height).then <|
    (compare a.anchor.hash b.anchor.hash).then <|
      (compare a.inputsHash b.inputsHash).then (compare a.kind.tag b.kind.tag)

/-- The receipts in canonical order. -/
def sort (receipts : List Receipt) : List Receipt :=
  receipts.mergeSort fun a b => (a.order b).isLE

end PayrollSeal.Receipt
