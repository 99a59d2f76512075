import PayrollSeal.Chunk
import PayrollSeal.Decimal
import PayrollSeal.Digest

/-!
# Writing chunks

A write appends one chunk to a buffer, and a write that fails leaves the buffer as it was.
Integers are unsigned with the high byte first; decimals and text are their UTF-8 bytes as they
stand.
-/

namespace PayrollSeal

/-- The bytes written so far. -/
abbrev Buffer := Array UInt8

/-- A computation that appends to a buffer and may fail; what it appended before stays. -/
abbrev Encode := ExceptT Rejection (StateM Buffer)

namespace Encode

/-- Runs a computation from a buffer. -/
def runFrom (buffer : Buffer) (encode : Encode Unit) : Except Rejection Unit × Buffer :=
  encode.run.run buffer

/-- Appends bytes. -/
def append (bytes : Bytes) : Encode Unit :=
  modify fun (buffer : Buffer) => buffer ++ bytes

/-- Appends a chunk whose length is known to fit. -/
def fixed (type : ChunkType) (value : Bytes) : Encode Unit :=
  append (Chunk.bytes ⟨type, value⟩)

/-- Appends a chunk, if its value is not too long. -/
def chunk (type : ChunkType) (value : Bytes) : Encode Unit := do
  append (← Chunk.encode ⟨type, value⟩)

def u8 (value : UInt8) : Encode Unit := fixed .u8 [value]

def u16 (value : UInt16) : Encode Unit := fixed .u16 (.ofUInt16 value)

def u32 (value : UInt32) : Encode Unit := fixed .u32 (.ofUInt32 value)

/-- Appends an integer of a given width, if it fits. -/
def uint (field : String) (width : Width) (value : Nat) : Encode Unit := do
  let value ← width.type.fit field value
  match width with
  | .u8 => u8 value.toUInt8
  | .u16 => u16 value.toUInt16
  | .u32 => u32 value.toUInt32

def hash (value : Digest) : Encode Unit := fixed .hash value.bytes

/-- Appends a field element. -/
def element (value : Decimal) : Encode Unit := chunk .element value.bytes

/-- Appends an amount of ledger units. -/
def units (value : Decimal) : Encode Unit := chunk .units value.bytes

/-- Appends text as it stands. -/
def text (value : String) : Encode Unit := chunk .text (.ofText value)

end Encode

/-- One write of a scalar. -/
inductive Write where
  | u8 (value : UInt8)
  | u16 (value : UInt16)
  | u32 (value : UInt32)
  | uint (field : String) (width : Width) (value : Nat)
  | hash (value : Digest)
  | element (value : Decimal)
  | units (value : Decimal)
  | text (value : String)
  | chunk (type : ChunkType) (value : Bytes)

/-- Performs a write. -/
def Write.run : Write → Encode Unit
  | u8 value => .u8 value
  | u16 value => .u16 value
  | u32 value => .u32 value
  | uint field width value => .uint field width value
  | hash value => .hash value
  | element value => .element value
  | units value => .units value
  | text value => .text value
  | chunk type value => .chunk type value

end PayrollSeal
