import PayrollSeal.Rejection

/-!
# Fixed-width integers

The integer types that a number may have to fit, and the three widths in which integers are
encoded.
-/

namespace PayrollSeal

/-- A fixed-width integer type. -/
structure IntType where
  bytes : Nat
  signed : Bool
deriving DecidableEq

namespace IntType

def u8 : IntType := ⟨1, false⟩
def u16 : IntType := ⟨2, false⟩
def u32 : IntType := ⟨4, false⟩
def u64 : IntType := ⟨8, false⟩
def u128 : IntType := ⟨16, false⟩
def i8 : IntType := ⟨1, true⟩
def i16 : IntType := ⟨2, true⟩
def i32 : IntType := ⟨4, true⟩
def i64 : IntType := ⟨8, true⟩

/-- The width of a type in bits. -/
def bits (type : IntType) : Nat := type.bytes * 8

/-- The largest value of a type. -/
def max (type : IntType) : Nat :=
  if type.signed then 1 <<< (type.bits - 1) - 1 else 1 <<< type.bits - 1

/-- Checks that a natural number fits a type; `field` is named if it does not. -/
def fit (type : IntType) (field : String) (value : Nat) : Except Rejection Nat :=
  if value ≤ type.max then .ok value else .error (.outOfRange field value type.bits)

end IntType

/-- The widths in which integers are encoded. -/
inductive Width where
  | u8
  | u16
  | u32
deriving DecidableEq

namespace Width

/-- Every width, narrowest first. -/
def all : List Width := [u8, u16, u32]

/-- The unsigned type of a width. -/
def type : Width → IntType
  | u8 => .u8
  | u16 => .u16
  | u32 => .u32

end Width

end PayrollSeal
