import PayrollSeal.Decimal
import PayrollSeal.Digest

/-!
# Parts of documents

Versions, periods, anchors and amounts: the records and tags that documents are made of.
-/

namespace PayrollSeal

/-- The code of the currency that a notary accepts unless told otherwise. -/
def Currency.usdcx : UInt8 := 1

/-- Schema, calculation and policy counters. They are encoded and never interpreted. -/
structure Versions where
  schema : UInt16
  calculation : UInt16
  policy : UInt16
deriving DecidableEq

/-- The first released versions. -/
def Versions.initial : Versions := ⟨1, 1, 1⟩

/-- The kind of period that a document covers. -/
inductive Period.Kind where
  /-- A single payroll cycle. -/
  | cycle
  /-- A calendar quarter. -/
  | quarter
  /-- The year to date. -/
  | yearToDate
  /-- The end of a year. -/
  | endOfYear
deriving DecidableEq

namespace Period.Kind

/-- Every kind, in the order of the tags. -/
def all : List Period.Kind := [cycle, quarter, yearToDate, endOfYear]

/-- The tag written for a kind. -/
def tag : Period.Kind → UInt8
  | cycle => 1
  | quarter => 2
  | yearToDate => 3
  | endOfYear => 4

/-- The kind with a tag. -/
def ofTag? (tag : UInt8) : Option Period.Kind :=
  all.find? (·.tag == tag)

/-- The name of a kind in messages. -/
def name : Period.Kind → String
  | cycle => "Cycle"
  | quarter => "Quarter"
  | yearToDate => "Ytd"
  | endOfYear => "Eoy"

end Period.Kind

/-- A period: its kind and two markers that callers choose. -/
structure Period where
  kind : Period.Kind
  start : UInt32
  stop : UInt32
deriving DecidableEq

/-- The text of a period in messages. -/
def Period.describe (period : Period) : String :=
  "PeriodRange \x7b kind: " ++ period.kind.name ++
    s!", start: {period.start}, end: {period.stop} \x7d"

/-- Whether a receipt is a normal one or takes another one back. -/
inductive Receipt.Kind where
  | paystub
  | reversal
deriving DecidableEq

namespace Receipt.Kind

/-- Every kind, in the order of the tags. -/
def all : List Receipt.Kind := [paystub, reversal]

/-- The tag written for a kind. -/
def tag : Receipt.Kind → UInt8
  | paystub => 1
  | reversal => 2

/-- The kind with a tag. -/
def ofTag? (tag : UInt8) : Option Receipt.Kind :=
  all.find? (·.tag == tag)

end Receipt.Kind

/-- A hash recorded at a height of the chain. -/
structure Anchor where
  hash : Digest
  height : UInt32
deriving DecidableEq

namespace Anchor

/-- The anchor that stands for none: the zero hash at height zero. -/
def absent : Anchor := ⟨.zero, 0⟩

/-- Whether an anchor stands for none. -/
def isAbsent (anchor : Anchor) : Bool :=
  anchor.hash.isZero && anchor.height == 0

end Anchor

/-- Amounts of money in ledger units. -/
structure Amounts where
  gross : Decimal
  net : Decimal
  taxWithheld : Decimal
  fee : Decimal
deriving DecidableEq

namespace Amounts

/-- The amounts for four numbers of units. -/
def ofUnits (gross net taxWithheld fee : Nat) : Amounts :=
  ⟨.ofNat gross, .ofNat net, .ofNat taxWithheld, .ofNat fee⟩

/-- The amounts in the order in which they are written. -/
def toList (amounts : Amounts) : List Decimal :=
  [amounts.gross, amounts.net, amounts.taxWithheld, amounts.fee]

end Amounts

end PayrollSeal
