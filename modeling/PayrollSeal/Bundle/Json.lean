import PayrollSeal.Bundle
import PayrollSeal.Document.Json

/-!
# Bundles in JSON
-/

namespace PayrollSeal

open Json (Fields Reader readUInt32 readName)

namespace RecordId

def toJson (id : RecordId) : Json := id.hash.toJson

def ofJson : Reader RecordId := fun json => RecordId.mk <$> Digest.ofJson json

end RecordId

namespace Scope

/-- The name of a scope in JSON. -/
def word : Scope → String
  | cycle => "CYCLE"
  | quarterly => "QUARTERLY"
  | yearToDate => "YTD"
  | endOfYear => "EOY"

def toJson (scope : Scope) : Json := .ofString scope.word

def ofJson : Reader Scope := readName all word .null

end Scope

namespace LeafHashes

def toJson (hashes : LeafHashes) : Json := .array (hashes.toList.map Digest.toJson)

/-- Reads three hashes. -/
def ofJson : Reader LeafHashes
  | .array [binding, amounts, provenance] =>
    return ⟨← Digest.ofJson binding, ← Digest.ofJson amounts, ← Digest.ofJson provenance⟩
  | _ => .error .malformed

end LeafHashes

namespace Bundle

def toJson (bundle : Bundle) : Json :=
  .record [("doc_hash", bundle.docHash.toJson), ("inputs_hash", bundle.inputsHash.toJson),
    ("root", bundle.root.toJson), ("leaf_hashes", bundle.leafHashes.toJson),
    ("record_id", bundle.recordId.toJson), ("scope", bundle.scope.toJson),
    ("period_id", .ofNat bundle.periodId.toNat), ("versions", bundle.versions.toJson),
    ("agreement_id", bundle.agreement.toJson)]

def ofJson : Reader Bundle := fun json => do
  let fields ← Fields.read ["doc_hash", "inputs_hash", "root", "leaf_hashes", "record_id",
    "scope", "period_id", "versions", "agreement_id"] 0 json
  return {
    docHash := ← fields.get "doc_hash" Digest.ofJson
    inputsHash := ← fields.get "inputs_hash" Digest.ofJson
    root := ← fields.get "root" Digest.ofJson
    leafHashes := ← fields.get "leaf_hashes" LeafHashes.ofJson
    recordId := ← fields.get "record_id" RecordId.ofJson
    scope := ← fields.get "scope" Scope.ofJson
    periodId := ← fields.get "period_id" readUInt32
    versions := ← fields.get "versions" Versions.ofJson
    agreement := ← fields.get "agreement_id" Digest.ofJson
  }

/-- The text of a bundle. -/
def toText (bundle : Bundle) : String := bundle.toJson.compact

/-- Reads the text of a bundle. -/
def ofText (text : String) : Except ReadError Bundle := Json.readText ofJson text

end Bundle

end PayrollSeal
