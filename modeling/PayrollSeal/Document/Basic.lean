import PayrollSeal.Document.Parts

/-!
# Documents

The three documents that can be hashed. Every record carries every field: an audit that never
took place is the absent anchor, so the form of a document does not depend on it.
-/

namespace PayrollSeal

/-- The settlement of one payroll cycle. -/
structure PayPeriod where
  versions : Versions
  agreement : Digest
  /-- The cycle's marker, which callers choose. -/
  epoch : UInt32
  /-- The worker's name, hashed to a field element. -/
  worker : Decimal
  /-- The employer's name, hashed to a field element. -/
  employer : Decimal
  currency : UInt8
  amounts : Amounts
  /-- The hash of the payroll inputs that the settlement was computed from. -/
  inputsHash : Digest
  receipt : Anchor
  audit : Anchor
  /-- A commitment to the time of the settlement. -/
  timeHash : Digest
deriving DecidableEq

/-- The totals over a period. -/
structure Summary where
  versions : Versions
  agreement : Digest
  period : Period
  worker : Decimal
  employer : Decimal
  currency : UInt8
  totals : Amounts
  /-- The hash of the inputs behind the totals. -/
  inputsHash : Digest
  audit : Anchor
deriving DecidableEq

/-- One receipt behind a summary. -/
structure Receipt where
  anchor : Anchor
  /-- The hash of the payroll inputs behind the receipt. -/
  inputsHash : Digest
  kind : Receipt.Kind
deriving DecidableEq

/-- The receipts behind a summary. Their order carries no meaning. -/
structure Inputs where
  versions : Versions
  agreement : Digest
  period : Period
  currency : UInt8
  receipts : List Receipt
deriving DecidableEq

/-- A document that can be hashed. -/
inductive Document where
  | payPeriod (doc : PayPeriod)
  | summary (doc : Summary)
  | inputs (doc : Inputs)
deriving DecidableEq

/-- The agreement that a document belongs to. -/
def Document.agreement : Document → Digest
  | payPeriod doc => doc.agreement
  | summary doc => doc.agreement
  | inputs doc => doc.agreement

end PayrollSeal
