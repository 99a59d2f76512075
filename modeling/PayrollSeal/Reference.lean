import PayrollSeal.Document.Json
import PayrollSeal.Statement

/-!
# Reference vectors

Three documents with the bytes, hashes and roots that every implementation must reproduce.
-/

namespace PayrollSeal

/-- The root of a document in text: none for inputs, the rejection if there is no root. -/
def Document.rootText? (doc : Document) : Option String :=
  doc.statement?.map fun statement =>
    match statement.root with
    | .ok root => root.toHex
    | .error rejection => "error: " ++ rejection.message

namespace Reference

/-- The agreement of every reference document. -/
def agreement : Digest := .filled 0x11

/-- One weekly cycle without an audit. -/
def payPeriod : PayPeriod where
  versions := .initial
  agreement := agreement
  epoch := 1
  worker := .zero
  employer := .zero
  currency := Currency.usdcx
  amounts := .ofUnits 100000 85000 12000 3000
  inputsHash := .zero
  receipt := ⟨.filled 0xaa, 100⟩
  audit := .absent
  timeHash := .zero

/-- Two receipts of a quarter, out of canonical order. -/
def inputs : Inputs where
  versions := .initial
  agreement := agreement
  period := ⟨.quarter, 1, 13⟩
  currency := Currency.usdcx
  receipts :=
    [⟨⟨.filled 0xbb, 50⟩, .filled 0x01, .paystub⟩,
      ⟨⟨.filled 0xcc, 10⟩, .filled 0x02, .reversal⟩]

/-- The hash of `inputs`. -/
def inputsHash : Digest :=
  ⟨[0x09, 0xe4, 0x3b, 0xa7, 0xa6, 0xdb, 0x63, 0x21, 0x3c, 0xf9, 0x27, 0xb7, 0xd3, 0x5b, 0xc4, 0xf2,
    0xa5, 0x04, 0x35, 0xe4, 0x74, 0x7f, 0x15, 0x78, 0xac, 0xa3, 0x0a, 0x4f, 0x4b, 0x57, 0x8e, 0xab],
    rfl⟩

/-- The summary over `inputs`, with an audit. -/
def summary : Summary where
  versions := .initial
  agreement := agreement
  period := ⟨.quarter, 1, 13⟩
  worker := .ofNat 123456789
  employer := .ofNat 987654321
  currency := Currency.usdcx
  totals := .ofUnits 1300000 1105000 156000 39000
  inputsHash := inputsHash
  audit := ⟨.filled 0xdd, 5000⟩

/-- A document with its expected bytes, hash and root in hex. -/
structure Vector where
  name : String
  document : Document
  bytes : String
  hash : String
  root : Option String

/-- Every vector. -/
def vectors : List Vector := [
  { name := "Weekly pay period, audit absent"
    document := .payPeriod payPeriod
    bytes :=
      "10010001020002000102000200010200020001" ++
      "0400201111111111111111111111111111111111111111111111111111111111111111" ++
      "0300040000000105000130050001300100010108000631303030303008000538353030" ++
      "30080005313230303008000433303030" ++
      "0400200000000000000000000000000000000000000000000000000000000000000000" ++
      "040020aaaaaaaaaaaaaaaaaaaaaaaaaaaaaaaaaaaaaaaaaaaaaaaaaaaaaaaaaaaaaaaa" ++
      "03000400000064" ++
      "0400200000000000000000000000000000000000000000000000000000000000000000" ++
      "03000400000000" ++
      "0400200000000000000000000000000000000000000000000000000000000000000000"
    hash := "0329bb20cca0701387592a56923220aa3855bc56b8c8f9c1a8d4a2181c608ae1"
    root := some "70e7996c7948289323b1dc30b31594f1b39cf3077fb1b6bfb00406da4bbb83c2" },
  { name := "Q1 inputs set, two receipts out of order"
    document := .inputs inputs
    bytes :=
      "20010001020002000102000200010200020001" ++
      "0400201111111111111111111111111111111111111111111111111111111111111111" ++
      "01000102" ++
      "03000400000001" ++
      "0300040000000d" ++
      "01000101" ++
      "03000400000002" ++
      "040020cccccccccccccccccccccccccccccccccccccccccccccccccccccccccccccccc" ++
      "0300040000000a" ++
      "0400200202020202020202020202020202020202020202020202020202020202020202" ++
      "01000102" ++
      "040020bbbbbbbbbbbbbbbbbbbbbbbbbbbbbbbbbbbbbbbbbbbbbbbbbbbbbbbbbbbbbbbb" ++
      "03000400000032" ++
      "0400200101010101010101010101010101010101010101010101010101010101010101" ++
      "01000101"
    hash := "09e43ba7a6db63213cf927b7d35bc4f2a50435e4747f1578aca30a4f4b578eab"
    root := none },
  { name := "Q1 summary with audit anchor"
    document := .summary summary
    bytes :=
      "10020001020002000102000200010200020001010001020400201111111111111111" ++
      "111111111111111111111111111111111111111111111111030004000000010300040000000d" ++
      "050009313233343536373839050009393837363534333231010001010800073133303030" ++
      "303008000731313035303030080006313536303030080005333930303004002009e43ba7" ++
      "a6db63213cf927b7d35bc4f2a50435e4747f1578aca30a4f4b578eab040020dddddddddd" ++
      "dddddddddddddddddddddddddddddddddddddddddddddddddddddd03000400001388"
    hash := "427aa900399529b4746abdfaae54b6587a25e48078bfb9b1da550afd244550d2"
    root := some "fced88146d70075c55a160946f96763d8556749855b4e7f5a4fad7b9e418fd11" }]

namespace Vector

/-- The computed bytes in hex; empty if the document cannot be encoded. -/
def computedBytes (vector : Vector) : String :=
  match vector.document.encode with
  | .ok bytes => String.ofList (Hex.encode bytes)
  | .error _ => ""

/-- The computed hash in hex; empty if the document cannot be encoded. -/
def computedHash (vector : Vector) : String :=
  match vector.document.hash with
  | .ok hash => hash.toHex
  | .error _ => ""

/-- Whether the computed bytes, hash and root are the expected ones. -/
def isReproduced (vector : Vector) : Bool :=
  vector.computedBytes == vector.bytes && vector.computedHash == vector.hash &&
    vector.document.rootText? == vector.root

/-- The computed values of a vector, for other implementations. -/
def toJson (vector : Vector) : Json :=
  .record [("name", .ofString vector.name), ("document", vector.document.toJson),
    ("bytes", .ofString vector.computedBytes), ("hash", .ofString vector.computedHash),
    ("root", (vector.document.rootText?.map Json.ofString).getD .null)]

end Vector

/-- The computed values of every vector. -/
def record : Json := .array (vectors.map Vector.toJson)

end Reference

end PayrollSeal
