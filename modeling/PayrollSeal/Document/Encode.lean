import PayrollSeal.Document.Order
import PayrollSeal.Domain
import PayrollSeal.Object.Layout

/-!
# Canonical bytes of documents

A document is written as an object with its fields in one fixed order, and its hash is the hash
of these bytes. The absent audit is written like any other, and receipts are written in
canonical order whatever the order in which they came.
-/

namespace PayrollSeal

namespace PayPeriod

/-- The fields of a pay period in the order of their bytes. -/
def layout (doc : PayPeriod) : Layout :=
  [.versions doc.versions, .hash doc.agreement, .u32 doc.epoch, .element doc.worker,
    .element doc.employer, .u8 doc.currency, .amounts doc.amounts, .hash doc.inputsHash,
    .anchor doc.receipt, .anchor doc.audit, .hash doc.timeHash]

/-- The canonical bytes of a pay period. -/
def encode (doc : PayPeriod) : Except Rejection Bytes :=
  Object.ofLayout .payPeriod doc.layout

/-- The hash of a pay period. -/
def hash (doc : PayPeriod) : Except Rejection Digest :=
  return Domain.document.hash (← doc.encode)

end PayPeriod

namespace Summary

/-- The fields of a summary in the order of their bytes: the kind of the period comes before the
agreement, its markers after it. -/
def layout (doc : Summary) : Layout :=
  [.versions doc.versions, .u8 doc.period.kind.tag, .hash doc.agreement,
    .u32 doc.period.start, .u32 doc.period.stop, .element doc.worker, .element doc.employer,
    .u8 doc.currency, .amounts doc.totals, .hash doc.inputsHash, .anchor doc.audit]

/-- The canonical bytes of a summary. -/
def encode (doc : Summary) : Except Rejection Bytes :=
  Object.ofLayout .summary doc.layout

/-- The hash of a summary. -/
def hash (doc : Summary) : Except Rejection Digest :=
  return Domain.document.hash (← doc.encode)

end Summary

/-- The fields of a receipt in the order of their bytes. -/
def Receipt.layout (receipt : Receipt) : Layout :=
  [.anchor receipt.anchor, .hash receipt.inputsHash, .u8 receipt.kind.tag]

namespace Inputs

/-- The fields of the inputs in the order of their bytes; `count` is the number of receipts. -/
def layout (inputs : Inputs) (count : UInt32) : Layout :=
  [.versions inputs.versions, .hash inputs.agreement, .u8 inputs.period.kind.tag,
    .u32 inputs.period.start, .u32 inputs.period.stop, .u8 inputs.currency, .u32 count] ++
    (Receipt.sort inputs.receipts).flatMap Receipt.layout

/-- The canonical bytes of the inputs, which must have receipts. -/
def encode (inputs : Inputs) : Except Rejection Bytes := do
  if inputs.receipts.isEmpty then
    throw (.unusable "inputs set must contain at least one item")
  let count ← IntType.u32.fit "item_count" inputs.receipts.length
  Object.ofLayout .inputs (inputs.layout count.toUInt32)

/-- The hash of the inputs. -/
def hash (inputs : Inputs) : Except Rejection Digest :=
  return Domain.inputs.hash (← inputs.encode)

end Inputs

namespace Document

/-- The kind of object that a document is written as. -/
def kind : Document → Object.Kind
  | payPeriod _ => .payPeriod
  | summary _ => .summary
  | inputs _ => .inputs

/-- The domain of a document's hash. -/
def domain : Document → Domain
  | payPeriod _ | summary _ => .document
  | inputs _ => .inputs

/-- The canonical bytes of a document. -/
def encode : Document → Except Rejection Bytes
  | payPeriod doc => doc.encode
  | summary doc => doc.encode
  | inputs doc => doc.encode

/-- The hash of a document. -/
def hash (doc : Document) : Except Rejection Digest :=
  return doc.domain.hash (← doc.encode)

end Document

end PayrollSeal
