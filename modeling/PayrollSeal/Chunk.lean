import PayrollSeal.Bytes
import PayrollSeal.IntType

/-!
# Chunks

Every scalar is encoded as one chunk: a type byte, a two-byte length and the value.
-/

namespace PayrollSeal

/-- The type of a chunk's value. -/
inductive ChunkType where
  | u8
  | u16
  | u32
  | hash
  /-- A field element as a decimal. -/
  | element
  /-- Free text. -/
  | text
  /-- An amount of ledger units as a decimal. -/
  | units
deriving DecidableEq

namespace ChunkType

/-- Every type, in the order of the codes. -/
def all : List ChunkType := [u8, u16, u32, hash, element, text, units]

/-- The byte written for a type. -/
def code : ChunkType → UInt8
  | u8 => 1
  | u16 => 2
  | u32 => 3
  | hash => 4
  | element => 5
  | text => 7
  | units => 8

end ChunkType

/-- A typed value. -/
structure Chunk where
  type : ChunkType
  value : Bytes
deriving DecidableEq

namespace Chunk

/-- The number of bytes in front of a value. -/
def headerLength : Nat := 3

/-- The longest value. -/
def maxLength : Nat := IntType.u16.max

/-- The bytes of a chunk; they are self-delimiting when the value is at most `maxLength` long. -/
def bytes (chunk : Chunk) : Bytes :=
  chunk.type.code :: Bytes.ofUInt16 chunk.value.length.toUInt16 ++ chunk.value

/-- The bytes of a chunk whose value is not too long. -/
def encode (chunk : Chunk) : Except Rejection Bytes := do
  let _ ← IntType.u16.fit "tlv_length" chunk.value.length
  return chunk.bytes

@[simp] theorem length_bytes (chunk : Chunk) :
    chunk.bytes.length = headerLength + chunk.value.length := by
  simp [bytes, headerLength]
  omega

end Chunk

end PayrollSeal
