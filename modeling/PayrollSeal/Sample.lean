import PayrollSeal.Notary
import PayrollSeal.Reference

/-!
# Sample documents

A sample builds documents of one agreement that its notary accepts.
-/

namespace PayrollSeal

/-- A notary and the agreement of the documents that are built. -/
structure Sample where
  notary : Notary := {}
  agreement : Digest := Reference.agreement

namespace Sample

/-- A pay period whose net is what is left of the gross, or nothing if that is less. -/
def payPeriod (sample : Sample) (epoch : UInt32) (gross tax fee : UInt64) : PayPeriod where
  versions := .initial
  agreement := sample.agreement
  epoch := epoch
  worker := .ofNat 1
  employer := .ofNat 2
  currency := Currency.usdcx
  amounts := .ofUnits gross.toNat (gross.toNat - tax.toNat - fee.toNat) tax.toNat fee.toNat
  inputsHash := .filled epoch.toUInt8
  receipt :=
    ⟨.filled (0xa0 ^^^ epoch.toUInt8), (min (epoch.toNat * 10) IntType.u32.max).toUInt32⟩
  audit := .absent
  timeHash := .zero

/-- The receipt at position `i` of `count`: heights fall from `count` to one. -/
def receipt (count : UInt32) (i : Nat) : Receipt where
  anchor := ⟨.filled i.toUInt8, count - i.toUInt32⟩
  inputsHash := .filled (0x40 ^^^ i.toUInt8)
  kind := .paystub

/-- The inputs over `count` receipts. -/
def inputs (sample : Sample) (period : Period) (count : UInt32) : Inputs where
  versions := .initial
  agreement := sample.agreement
  period := period
  currency := Currency.usdcx
  receipts := (List.range count.toNat).map (receipt count)

/-- The summary over inputs, which must have receipts. -/
def summary (inputs : Inputs) (totals : Amounts) : Except Rejection Summary :=
  return {
    versions := inputs.versions
    agreement := inputs.agreement
    period := inputs.period
    worker := .ofNat 1
    employer := .ofNat 2
    currency := inputs.currency
    totals := totals
    inputsHash := ← inputs.hash
    audit := .absent
  }

end Sample

end PayrollSeal
