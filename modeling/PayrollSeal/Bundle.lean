import PayrollSeal.RecordId
import PayrollSeal.Statement

/-!
# Bundles

A bundle holds every hash that is needed to anchor one statement.
-/

namespace PayrollSeal

/-- The hashes of one statement, with the identifier of its record and the values behind it. -/
structure Bundle where
  /-- The hash of the whole document. -/
  docHash : Digest
  /-- The hash of the inputs behind the document. -/
  inputsHash : Digest
  root : Digest
  leafHashes : LeafHashes
  recordId : RecordId
  scope : Scope
  periodId : UInt32
  versions : Versions
  agreement : Digest
deriving DecidableEq

/-- Whether the identifier is the one derived from the values that it claims to bind. A bundle
that was read from text carries whatever identifier its sender wrote. -/
def Bundle.idMatches (bundle : Bundle) : Bool :=
  RecordId.of bundle.scope bundle.periodId bundle.agreement bundle.inputsHash ==
    bundle.recordId

end PayrollSeal
