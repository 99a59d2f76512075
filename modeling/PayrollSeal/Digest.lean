import PayrollSeal.Rejection
import PayrollSeal.Hex

/-!
# Hashes

A hash is 32 bytes. Its text is 64 lower-case hex digits, and reading allows one `0x` in front.
Hashes are ordered by their bytes.
-/

namespace PayrollSeal

/-- The number of bytes of a hash. -/
def digestLength : Nat := 32

/-- A 32-byte hash, anchor or identifier. -/
@[ext]
structure Digest where
  bytes : Bytes
  length_bytes : bytes.length = digestLength
deriving DecidableEq

namespace Digest

/-- The hash with 32 equal bytes. -/
def filled (b : UInt8) : Digest :=
  ⟨List.replicate digestLength b, List.length_replicate⟩

/-- The hash of zero bytes, which stands for an absent value. -/
def zero : Digest := filled 0

/-- Whether every byte is zero. -/
def isZero (h : Digest) : Bool := h == zero

instance : Ord Digest where
  compare a b := compare a.bytes b.bytes

/-- Reads a byte string that must have 32 bytes; `field` is named if it has not. -/
def ofBytes (field : String) (bytes : Bytes) : Except Rejection Digest :=
  if h : bytes.length = digestLength then .ok ⟨bytes, h⟩
  else .error (.malformed field s!"expected {digestLength} bytes, got {bytes.length}")

/-- The text of a hash. -/
def toHex (h : Digest) : String :=
  String.ofList (Hex.encode h.bytes)

/-- The first sixteen digits, for messages. -/
def short (h : Digest) : String :=
  String.ofList ((Hex.encode h.bytes).take 16)

/-- Drops one `0x` in front of the digits. -/
def dropMark : List Char → List Char
  | '0' :: 'x' :: digits => digits
  | digits => digits

/-- Reads the text of a hash: the length is looked at first, then the digits. -/
def ofHex (text : String) : Except Rejection Digest :=
  let digits := dropMark text.toList
  if Bytes.utf8Length digits ≠ 2 * digestLength then
    .error (.malformed "bytes32" s!"expected 64 hex chars, got {Bytes.utf8Length digits}")
  else if !digits.all Hex.isLower then
    .error (.malformed "bytes32" "must be lowercase hex")
  else
    match Hex.decode digits with
    | .ok bytes => ofBytes "bytes32" bytes
    | .error fault => .error (.malformed "bytes32" fault.message)

end Digest

end PayrollSeal
