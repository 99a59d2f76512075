import PayrollSeal.Bytes

/-!
# Objects

An object is a four-byte header, which holds its kind and the version of the encoding, followed
by chunks in a fixed order.
-/

namespace PayrollSeal

/-- The kind of an object. -/
inductive Object.Kind where
  | payPeriod
  | summary
  | inputs
  | payPeriodLeaf
  | summaryLeaf
deriving DecidableEq

namespace Object.Kind

/-- Every kind. -/
def all : List Object.Kind := [payPeriod, summary, inputs, payPeriodLeaf, summaryLeaf]

/-- The tag written for a kind. -/
def tag : Object.Kind → UInt16
  | payPeriod => 0x1001
  | summary => 0x1002
  | inputs => 0x2001
  | payPeriodLeaf => 0x3001
  | summaryLeaf => 0x3002

/-- The kind with a tag. -/
def ofTag? (tag : UInt16) : Option Object.Kind :=
  all.find? (·.tag == tag)

/-- Whether a kind is that of a leaf. -/
def isLeaf (kind : Object.Kind) : Bool :=
  kind.tag &&& 0xF000 == 0x3000

end Object.Kind

namespace Object

/-- The version of the encoding. -/
def version : UInt16 := 1

/-- The number of bytes of a header. -/
def headerLength : Nat := 4

/-- The header of an object. -/
def header (kind : Object.Kind) : Bytes :=
  .ofUInt16 kind.tag ++ .ofUInt16 version

/-- The object over chunks that are already encoded. -/
def ofChunks (kind : Object.Kind) (chunks : List Bytes) : Bytes :=
  header kind ++ chunks.flatten

/-- Reads the kind and the version; there are none if the header is cut short or the kind is
unknown. -/
def header? : Bytes → Option (Object.Kind × UInt16)
  | k0 :: k1 :: v0 :: v1 :: _ => do
    let kind ← Object.Kind.ofTag? (Bytes.toUInt16 k0 k1)
    return (kind, Bytes.toUInt16 v0 v1)
  | _ => none

@[simp] theorem length_header (kind : Object.Kind) : (header kind).length = headerLength := rfl

end Object

end PayrollSeal
