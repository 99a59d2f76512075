import PayrollSeal.Bundle
import PayrollSeal.Opening

/-!
# Notaries

A notary seals statements into bundles and opens single leaves. It accepts the currencies on its
list, checks a summary against the inputs that it was built from, and can check its own proofs
before it hands them out.
-/

namespace PayrollSeal

/-- Why a notary refuses. -/
inductive Refusal where
  /-- Encoding, hashing or proving failed. -/
  | rejected (rejection : Rejection)
  /-- The summary names another inputs hash than that of the inputs. -/
  | inputsDiffer (declared computed : Digest)
  /-- Summary and inputs belong to different agreements. -/
  | agreementsDiffer (summary inputs : Digest)
  /-- Summary and inputs cover different periods. -/
  | periodsDiffer (summary inputs : Period)
  /-- Summary and inputs are in different currencies. -/
  | currenciesDiffer (summary inputs : UInt8)
  /-- The currency is not on the notary's list. -/
  | unsupportedCurrency (code : UInt8)
  /-- Text could not be written or read. -/
  | unreadable (reason : String)
  /-- A fresh proof does not lead to its own root. -/
  | proofFails (leaf : Leaf)
deriving DecidableEq

/-- The text of a refusal. -/
def Refusal.message : Refusal → String
  | rejected rejection => "commit error: " ++ rejection.message
  | inputsDiffer declared computed =>
    "inputs hash mismatch: summary has " ++ declared.toHex ++ ", inputs set hashes to " ++
      computed.toHex
  | agreementsDiffer summary inputs =>
    "agreement mismatch: " ++ summary.toHex ++ " vs " ++ inputs.toHex
  | periodsDiffer summary inputs =>
    "period mismatch: " ++ summary.describe ++ " vs " ++ inputs.describe
  | currenciesDiffer summary inputs => s!"currency mismatch: {summary} vs {inputs}"
  | unsupportedCurrency code => s!"unsupported currency code: {code}"
  | unreadable reason => s!"serialization error: {reason}"
  | proofFails leaf => "self-check failed for leaf " ++ leaf.name

/-- The settings of a notary. -/
structure Notary where
  /-- The currencies that documents may be in. -/
  currencies : List UInt8 := [Currency.usdcx]
  /-- Whether fresh proofs are checked. -/
  checksProofs : Bool := true
deriving DecidableEq

namespace Notary

/-- Refuses a currency that is not on the list. -/
def requireCurrency (notary : Notary) (code : UInt8) : Except Refusal Unit :=
  if notary.currencies.contains code then .ok () else .error (.unsupportedCurrency code)

/-- Refuses if the proof of a leaf does not lead to the root. -/
def requireProofs (notary : Notary) (hashes : LeafHashes) (root : Digest) : Except Refusal Unit :=
  if notary.checksProofs then
    Leaf.all.forM fun leaf => do
      let proof ← (Merkle.proof hashes.toList leaf.index).mapError .rejected
      if Merkle.verify root (hashes.get leaf) proof then .ok () else .error (.proofFails leaf)
  else .ok ()

/-- Refuses a summary and inputs that differ in agreement, period or currency. -/
def requireMatch (doc : Summary) (inputs : Inputs) : Except Refusal Unit := do
  if doc.agreement ≠ inputs.agreement then
    throw (.agreementsDiffer doc.agreement inputs.agreement)
  if doc.period ≠ inputs.period then
    throw (.periodsDiffer doc.period inputs.period)
  if doc.currency ≠ inputs.currency then
    throw (.currenciesDiffer doc.currency inputs.currency)

/-- The bundle of a statement over an inputs hash, as the record of a scope and a period. -/
def bundle (notary : Notary) (statement : Statement) (inputsHash : Digest) (scope : Scope)
    (periodId : UInt32) : Except Refusal Bundle := do
  let docHash ← statement.docHash.mapError .rejected
  let leafHashes ← statement.leafHashes.mapError .rejected
  let root ← (Merkle.root leafHashes.toList).mapError .rejected
  notary.requireProofs leafHashes root
  let recordId := RecordId.of scope periodId statement.agreement inputsHash
  return {
    docHash, inputsHash, root, leafHashes, recordId, scope, periodId
    versions := statement.versions
    agreement := statement.agreement
  }

/-- Seals a pay period: the scope is a cycle and the period is the epoch. -/
def sealPayPeriod (notary : Notary) (doc : PayPeriod) : Except Refusal Bundle := do
  notary.requireCurrency doc.currency
  notary.bundle (.payPeriod doc) doc.inputsHash .cycle doc.epoch

/-- Seals a summary against the inputs that it was built from. -/
def sealSummary (notary : Notary) (doc : Summary) (inputs : Inputs) (periodId : UInt32) :
    Except Refusal Bundle := do
  notary.requireCurrency doc.currency
  requireMatch doc inputs
  let computed ← inputs.hash.mapError .rejected
  if computed ≠ doc.inputsHash then
    throw (.inputsDiffer doc.inputsHash computed)
  notary.bundle (.summary doc) computed (.ofKind doc.period.kind) periodId

/-- Opens one leaf of a statement, in whatever currency it is. -/
def openLeaf (notary : Notary) (statement : Statement) (leaf : Leaf) :
    Except Refusal Opening := do
  let leafBytes ← (statement.leafBytes leaf).mapError .rejected
  let leafHashes ← statement.leafHashes.mapError .rejected
  let root ← (Merkle.root leafHashes.toList).mapError .rejected
  let proof ← (Merkle.proof leafHashes.toList leaf.index).mapError .rejected
  let opening : Opening := {
    leaf, leafBytes, proof, root
    kindTag := statement.leafKind.tag
    leafHash := leafHashes.get leaf
  }
  if notary.checksProofs && !opening.verify then
    throw (.proofFails leaf)
  return opening

end Notary

end PayrollSeal
