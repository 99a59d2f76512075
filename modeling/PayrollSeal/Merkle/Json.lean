import PayrollSeal.Json.Scalars
import PayrollSeal.Merkle.Proof

/-!
# Merkle proofs in JSON
-/

namespace PayrollSeal.Merkle

open Json (Fields Reader readList readName)

namespace Side

/-- Both sides. -/
def all : List Side := [left, right]

/-- The name of a side in JSON. -/
def word : Side → String
  | left => "L"
  | right => "R"

def toJson (side : Side) : Json := .ofString side.word

def ofJson : Reader Side := readName all word .null

end Side

namespace Step

def toJson (step : Step) : Json :=
  .record [("sibling", step.sibling.toJson), ("side", step.side.toJson)]

def ofJson : Reader Step := fun json => do
  let fields ← Fields.read ["sibling", "side"] 0 json
  return {
    sibling := ← fields.get "sibling" Digest.ofJson
    side := ← fields.get "side" Side.ofJson
  }

end Step

def proofToJson (proof : List Step) : Json := .array (proof.map Step.toJson)

def proofOfJson : Reader (List Step) := readList Step.ofJson

end PayrollSeal.Merkle
