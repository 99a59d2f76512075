import PayrollSeal.Chunk.Write
import PayrollSeal.Document.Parts
import PayrollSeal.Object.Kind

/-!
# Layouts of objects

An object is written field by field behind its header. A field is a scalar, or a record that is
written as several scalars in a fixed order. A layout is the list of an object's fields in the
order of their bytes.
-/

namespace PayrollSeal

/-- A field of an object. -/
inductive Field where
  | u8 (value : UInt8)
  | u16 (value : UInt16)
  | u32 (value : UInt32)
  | hash (value : Digest)
  /-- Schema, calculation and policy version. -/
  | versions (versions : Versions)
  /-- The hash, then the height. -/
  | anchor (anchor : Anchor)
  /-- A field element. -/
  | element (value : Decimal)
  /-- An amount of ledger units. -/
  | units (value : Decimal)
  /-- Gross, net, tax and fee. -/
  | amounts (amounts : Amounts)
deriving DecidableEq

namespace Field

/-- The writes that a field stands for. -/
def writes : Field → List Write
  | u8 value => [.u8 value]
  | u16 value => [.u16 value]
  | u32 value => [.u32 value]
  | hash value => [.hash value]
  | versions v => [.u16 v.schema, .u16 v.calculation, .u16 v.policy]
  | anchor a => [.hash a.hash, .u32 a.height]
  | element value => [.element value]
  | units value => [.units value]
  | amounts a => a.toList.map .units

/-- Writes a field. Scalars written before one that fails stay. -/
def run (field : Field) : Encode Unit :=
  field.writes.forM Write.run

end Field

/-- The fields of an object, or of a part of one, in the order of their bytes. -/
abbrev Layout := List Field

namespace Object

/-- The buffer of an object of which nothing but the header is written. -/
def start (kind : Object.Kind) : Buffer :=
  (header kind).toArray

/-- The bytes of the object with a layout. -/
def ofLayout (kind : Object.Kind) (layout : Layout) : Except Rejection Bytes :=
  match Encode.runFrom (start kind) (layout.forM Field.run) with
  | (.ok _, buffer) => .ok buffer.toList
  | (.error rejection, _) => .error rejection

end Object

end PayrollSeal
