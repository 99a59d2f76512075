import PayrollSeal.Document.Parts
import PayrollSeal.Domain

/-!
# Record identifiers

The identifier of an anchored record is the hash of the layout version, the scope, the period id,
the agreement and the inputs hash, each with a fixed width.
-/

namespace PayrollSeal

/-- The kind of record that an identifier names. -/
inductive Scope where
  | cycle
  | quarterly
  | yearToDate
  | endOfYear
deriving DecidableEq

namespace Scope

/-- Every scope, in the order of the tags. -/
def all : List Scope := [cycle, quarterly, yearToDate, endOfYear]

/-- The tag written for a scope. -/
def tag : Scope → UInt8
  | cycle => 1
  | quarterly => 2
  | yearToDate => 3
  | endOfYear => 4

/-- The scope with a tag. -/
def ofTag? (tag : UInt8) : Option Scope :=
  all.find? (·.tag == tag)

/-- The scope of records over a kind of period. -/
def ofKind : Period.Kind → Scope
  | .cycle => cycle
  | .quarter => quarterly
  | .yearToDate => yearToDate
  | .endOfYear => endOfYear

end Scope

/-- The identifier of an anchored record. One that was read from text is whatever its sender
wrote. -/
structure RecordId where
  hash : Digest
deriving DecidableEq

namespace RecordId

/-- The version of the identifier's layout. -/
def layoutVersion : UInt16 := 1

/-- The values that an identifier binds, one after another. -/
def parts (scope : Scope) (periodId : UInt32) (agreement inputsHash : Digest) : List Bytes :=
  [.ofUInt16 layoutVersion, [scope.tag], .ofUInt32 periodId, agreement.bytes,
    inputsHash.bytes]

/-- Derives the identifier of a record. -/
def of (scope : Scope) (periodId : UInt32) (agreement inputsHash : Digest) : RecordId :=
  ⟨Domain.identifier.hashParts (parts scope periodId agreement inputsHash)⟩

end RecordId

end PayrollSeal
