import PayrollSeal.Document.Basic
import PayrollSeal.Json.Scalars

/-!
# Documents in JSON

Records are written as objects with their fields in the declared order. A document also names its
type, first when written and anywhere when read; inside it an empty object says as little as
`null`. An audit may be left off, which stands for the absent anchor.
-/

namespace PayrollSeal

open Json (Blank Fields Reader readString readUInt8 readUInt16 readUInt32 readList readName)

/-! ## Parts -/

namespace Versions

def toJson (v : Versions) : Json :=
  .record [("schema_v", .ofNat v.schema.toNat), ("calc_v", .ofNat v.calculation.toNat),
    ("policy_v", .ofNat v.policy.toNat)]

def ofJson : Reader Versions := fun json => do
  let fields ← Fields.read ["schema_v", "calc_v", "policy_v"] 0 json
  return {
    schema := ← fields.get "schema_v" readUInt16
    calculation := ← fields.get "calc_v" readUInt16
    policy := ← fields.get "policy_v" readUInt16
  }

end Versions

namespace Period.Kind

/-- The name of a kind in JSON. -/
def word : Period.Kind → String
  | cycle => "CYCLE"
  | quarter => "QUARTER"
  | yearToDate => "YTD"
  | endOfYear => "EOY"

def toJson (kind : Period.Kind) : Json := .ofString kind.word

def ofJson (blank : Blank) : Reader Period.Kind := readName all word blank

end Period.Kind

namespace Period

def toJson (period : Period) : Json :=
  .record [("kind", period.kind.toJson), ("start", .ofNat period.start.toNat),
    ("end", .ofNat period.stop.toNat)]

def ofJson (blank : Blank) : Reader Period := fun json => do
  let fields ← Fields.read ["kind", "start", "end"] 0 json
  return {
    kind := ← fields.get "kind" (Period.Kind.ofJson blank)
    start := ← fields.get "start" readUInt32
    stop := ← fields.get "end" readUInt32
  }

end Period

namespace Receipt.Kind

/-- The name of a kind in JSON. -/
def word : Receipt.Kind → String
  | paystub => "PAYSTUB"
  | reversal => "REVERSAL"

def toJson (kind : Receipt.Kind) : Json := .ofString kind.word

def ofJson (blank : Blank) : Reader Receipt.Kind := readName all word blank

end Receipt.Kind

namespace Anchor

def toJson (anchor : Anchor) : Json :=
  .record [("anchor", anchor.hash.toJson), ("height", .ofNat anchor.height.toNat)]

def ofJson : Reader Anchor := fun json => do
  let fields ← Fields.read ["anchor", "height"] 0 json
  return {
    hash := ← fields.get "anchor" Digest.ofJson
    height := ← fields.get "height" readUInt32
  }

end Anchor

namespace Amounts

def toJson (amounts : Amounts) : Json :=
  .record [("gross", amounts.gross.toJson), ("net", amounts.net.toJson),
    ("tax_withheld", amounts.taxWithheld.toJson), ("fee", amounts.fee.toJson)]

def ofJson : Reader Amounts := fun json => do
  let fields ← Fields.read ["gross", "net", "tax_withheld", "fee"] 0 json
  return {
    gross := ← fields.get "gross" Decimal.ofJson
    net := ← fields.get "net" Decimal.ofJson
    taxWithheld := ← fields.get "tax_withheld" Decimal.ofJson
    fee := ← fields.get "fee" Decimal.ofJson
  }

end Amounts

/-! ## Documents -/

namespace PayPeriod

/-- The members of a pay period's object. -/
def members (doc : PayPeriod) : List (String × Json) :=
  [("versions", doc.versions.toJson), ("agreement_id", doc.agreement.toJson),
    ("epoch_id", .ofNat doc.epoch.toNat), ("worker_name_hash", doc.worker.toJson),
    ("employer_name_hash", doc.employer.toJson), ("currency_code", .ofNat doc.currency.toNat),
    ("amounts", doc.amounts.toJson), ("payroll_inputs_hash", doc.inputsHash.toJson),
    ("receipt", doc.receipt.toJson), ("audit", doc.audit.toJson),
    ("utc_time_hash", doc.timeHash.toJson)]

def toJson (doc : PayPeriod) : Json := .record doc.members

def ofJson : Reader PayPeriod := fun json => do
  let fields ← Fields.read ["versions", "agreement_id", "epoch_id", "worker_name_hash",
    "employer_name_hash", "currency_code", "amounts", "payroll_inputs_hash", "receipt", "audit",
    "utc_time_hash"] 0 json
  return {
    versions := ← fields.get "versions" Versions.ofJson
    agreement := ← fields.get "agreement_id" Digest.ofJson
    epoch := ← fields.get "epoch_id" readUInt32
    worker := ← fields.get "worker_name_hash" Decimal.ofJson
    employer := ← fields.get "employer_name_hash" Decimal.ofJson
    currency := ← fields.get "currency_code" readUInt8
    amounts := ← fields.get "amounts" Amounts.ofJson
    inputsHash := ← fields.get "payroll_inputs_hash" Digest.ofJson
    receipt := ← fields.get "receipt" Anchor.ofJson
    audit := (← fields.get? "audit" Anchor.ofJson).getD .absent
    timeHash := ← fields.get "utc_time_hash" Digest.ofJson
  }

end PayPeriod

namespace Summary

/-- The members of a summary's object. -/
def members (doc : Summary) : List (String × Json) :=
  [("versions", doc.versions.toJson), ("agreement_id", doc.agreement.toJson),
    ("period", doc.period.toJson), ("worker_name_hash", doc.worker.toJson),
    ("employer_name_hash", doc.employer.toJson), ("currency_code", .ofNat doc.currency.toNat),
    ("totals", doc.totals.toJson), ("inputs_hash", doc.inputsHash.toJson),
    ("audit", doc.audit.toJson)]

def toJson (doc : Summary) : Json := .record doc.members

def ofJson (blank : Blank) : Reader Summary := fun json => do
  let fields ← Fields.read ["versions", "agreement_id", "period", "worker_name_hash",
    "employer_name_hash", "currency_code", "totals", "inputs_hash", "audit"] 1 json
  return {
    versions := ← fields.get "versions" Versions.ofJson
    agreement := ← fields.get "agreement_id" Digest.ofJson
    period := ← fields.get "period" (Period.ofJson blank)
    worker := ← fields.get "worker_name_hash" Decimal.ofJson
    employer := ← fields.get "employer_name_hash" Decimal.ofJson
    currency := ← fields.get "currency_code" readUInt8
    totals := ← fields.get "totals" Amounts.ofJson
    inputsHash := ← fields.get "inputs_hash" Digest.ofJson
    audit := (← fields.get? "audit" Anchor.ofJson).getD .absent
  }

end Summary

namespace Receipt

def toJson (receipt : Receipt) : Json :=
  .record [("receipt", receipt.anchor.toJson), ("payroll_inputs_hash", receipt.inputsHash.toJson),
    ("kind", receipt.kind.toJson)]

def ofJson (blank : Blank) : Reader Receipt := fun json => do
  let fields ← Fields.read ["receipt", "payroll_inputs_hash", "kind"] 0 json
  return {
    anchor := ← fields.get "receipt" Anchor.ofJson
    inputsHash := ← fields.get "payroll_inputs_hash" Digest.ofJson
    kind := ← fields.get "kind" (Receipt.Kind.ofJson blank)
  }

end Receipt

namespace Inputs

/-- The members of the object of inputs. -/
def members (inputs : Inputs) : List (String × Json) :=
  [("versions", inputs.versions.toJson), ("agreement_id", inputs.agreement.toJson),
    ("period", inputs.period.toJson), ("currency_code", .ofNat inputs.currency.toNat),
    ("items", .array (inputs.receipts.map Receipt.toJson))]

def toJson (inputs : Inputs) : Json := .record inputs.members

def ofJson (blank : Blank) : Reader Inputs := fun json => do
  let fields ← Fields.read ["versions", "agreement_id", "period", "currency_code", "items"] 0 json
  return {
    versions := ← fields.get "versions" Versions.ofJson
    agreement := ← fields.get "agreement_id" Digest.ofJson
    period := ← fields.get "period" (Period.ofJson blank)
    currency := ← fields.get "currency_code" readUInt8
    receipts := ← fields.get "items" (readList (Receipt.ofJson blank))
  }

end Inputs

/-- The type of a document. -/
inductive DocType where
  | payPeriod
  | summary
  | inputs
deriving DecidableEq

namespace DocType

/-- Every type. -/
def all : List DocType := [payPeriod, summary, inputs]

/-- The name of a type in JSON. -/
def word : DocType → String
  | payPeriod => "PAY_PERIOD"
  | summary => "PERIOD_SUMMARY"
  | inputs => "INPUTS_SET"

/-- Reads the name of a type. -/
def ofJson : Reader DocType := fun json => do
  Json.ofName all word (← readString json)

end DocType

namespace Document

/-- The field that names the type. -/
def typeField : String := "doc_type"

/-- How deep arrays and objects may nest in the text of a document. -/
def maxDepth : Nat := 127

def docType : Document → DocType
  | payPeriod _ => .payPeriod
  | summary _ => .summary
  | inputs _ => .inputs

/-- The members of a document's object but for its type. -/
def members : Document → List (String × Json)
  | payPeriod doc => doc.members
  | summary doc => doc.members
  | inputs doc => doc.members

def toJson (doc : Document) : Json :=
  .record ((typeField, .ofString doc.docType.word) :: doc.members)

/-- Reads the document of a type. -/
def ofJsonAs : DocType → Reader Document
  | .payPeriod => fun json => payPeriod <$> PayPeriod.ofJson json
  | .summary => fun json => summary <$> Summary.ofJson .nullOrEmpty json
  | .inputs => fun json => inputs <$> Inputs.ofJson .nullOrEmpty json

/-- Reads a document: an object with its type among the members, or an array with its type in
front of the fields. -/
def ofJson : Reader Document
  | .object members => do
    let rest := members.filter fun member => member.1 ≠ some typeField
    match Fields.named typeField members with
    | [] => throw (.missingField typeField)
    | [name] => ofJsonAs (← DocType.ofJson name) (.object rest)
    | _ => throw (.duplicateField typeField)
  | .array [] => .error (.missingField typeField)
  | .array (name :: rest) => do ofJsonAs (← DocType.ofJson name) (.array rest)
  | _ => .error .malformed

/-- Reads the text of a document. Unlike other texts, all of it must mean something. -/
def ofText (text : String) : Except ReadError Document :=
  Json.readPlainText maxDepth ofJson text

end Document

end PayrollSeal
