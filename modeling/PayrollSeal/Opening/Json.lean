import PayrollSeal.Merkle.Json
import PayrollSeal.Opening

/-!
# Openings in JSON

The bytes of the leaf are written in lower-case hex and read in either case.
-/

namespace PayrollSeal

open Json (Fields Reader readString readUInt16 readList readName)

namespace Leaf

/-- The name of a leaf in JSON. -/
def word : Leaf → String
  | binding => "BINDING"
  | amounts => "AMOUNTS"
  | provenance => "PROVENANCE"

def toJson (leaf : Leaf) : Json := .ofString leaf.word

def ofJson : Reader Leaf := readName all word .null

end Leaf

namespace Opening

/-- Bytes as hex text. -/
def bytesToJson (bytes : Bytes) : Json := .ofString (String.ofList (Hex.encode bytes))

/-- Reads bytes from hex text. -/
def bytesOfJson : Reader Bytes := fun json => do
  (Hex.decode (← readString json).toList).mapError .badHex

def toJson (opening : Opening) : Json :=
  .record [("leaf", opening.leaf.toJson), ("object_kind", .ofNat opening.kindTag.toNat),
    ("leaf_bytes", bytesToJson opening.leafBytes), ("leaf_hash", opening.leafHash.toJson),
    ("proof", Merkle.proofToJson opening.proof), ("root", opening.root.toJson)]

def ofJson : Reader Opening := fun json => do
  let fields ← Fields.read ["leaf", "object_kind", "leaf_bytes", "leaf_hash", "proof", "root"] 0
    json
  return {
    leaf := ← fields.get "leaf" Leaf.ofJson
    kindTag := ← fields.get "object_kind" readUInt16
    leafBytes := ← fields.get "leaf_bytes" bytesOfJson
    leafHash := ← fields.get "leaf_hash" Digest.ofJson
    proof := ← fields.get "proof" Merkle.proofOfJson
    root := ← fields.get "root" Digest.ofJson
  }

/-- The text of an opening. -/
def toText (opening : Opening) : String := opening.toJson.compact

/-- Reads the text of an opening. -/
def ofText (text : String) : Except ReadError Opening := Json.readText ofJson text

end Opening

end PayrollSeal
