import PayrollSeal.Json.Builder
import PayrollSeal.Digest

/-!
# Reading records

A record is written as an object with its fields in any order, or as the array of its fields in
the declared order. Members that are no field of the record are passed over, but a field may not
come twice. A value of a few named ones is written as its name, or as an object with that name and
a value that says nothing.
-/

namespace PayrollSeal

/-- Why a text cannot be read. -/
inductive ReadError where
  /-- A field's text is not what it should be. -/
  | refused (error : Rejection)
  | missingField (name : String)
  | duplicateField (name : String)
  | unknownName (name : String)
  /-- Bytes are not written in hex. -/
  | badHex (fault : Hex.Fault)
  /-- The text is no JSON, or has another shape or a number that is too large. -/
  | malformed
deriving DecidableEq

namespace ReadError

/-- The text of an error; a malformed text has none. -/
def message? : ReadError → Option String
  | refused error => some error.message
  | missingField name => some s!"missing field `{name}`"
  | duplicateField name => some s!"duplicate field `{name}`"
  | unknownName name => some s!"unknown variant `{name}`"
  | badHex fault => some fault.message
  | malformed => none

end ReadError

/-- Reads a value of JSON. -/
abbrev Json.Reader (α : Type) := Json → Except ReadError α

namespace Json

/-- Reads a string. -/
def readString : Reader String
  | .text (some s) => .ok s
  | _ => .error .malformed

/-- Reads a natural number up to `max`. -/
def readNat (max : Nat) : Reader Nat
  | .number written =>
    match written.toNat? with
    | some n => if n ≤ max then .ok n else .error .malformed
    | none => .error .malformed
  | _ => .error .malformed

def readUInt8 : Reader UInt8 := fun json => Nat.toUInt8 <$> readNat 0xFF json

def readUInt16 : Reader UInt16 := fun json => Nat.toUInt16 <$> readNat 0xFFFF json

def readUInt32 : Reader UInt32 := fun json => Nat.toUInt32 <$> readNat 0xFFFFFFFF json

/-- Reads an array of any length. -/
def readList {α : Type} (read : Reader α) : Reader (List α)
  | .array items => items.mapM read
  | _ => .error .malformed

/-- The value with a name. -/
def ofName {α : Type} (values : List α) (nameOf : α → String) (name : String) :
    Except ReadError α :=
  match values.find? (nameOf · == name) with
  | some value => .ok value
  | none => .error (.unknownName name)

/-- What says nothing. -/
inductive Blank where
  /-- `null` alone. -/
  | null
  /-- `null` or an empty object. -/
  | nullOrEmpty
deriving DecidableEq

/-- Whether a value says nothing. -/
def Blank.holds : Blank → Json → Bool
  | _, .null => true
  | nullOrEmpty, .object [] => true
  | _, _ => false

/-- Reads one of the given values by its name. -/
def readName {α : Type} (values : List α) (nameOf : α → String) (blank : Blank) : Reader α
  | .text (some name) => ofName values nameOf name
  | .object [(some name, json)] => do
    let value ← ofName values nameOf name
    if blank.holds json then return value else throw .malformed
  | _ => .error .malformed

/-- The fields of a record that are present, by name. -/
abbrev Fields := List (String × Json)

namespace Fields

/-- The members with a name. -/
def named (name : String) (members : List (Text × Json)) : List Json :=
  members.filterMap fun (key, value) => if key = some name then some value else none

/-- Picks the fields of a record out of the members of an object. -/
def ofMembers (members : List (Text × Json)) : List String → Except ReadError Fields
  | [] => .ok []
  | name :: names => do
    match named name members with
    | [] => ofMembers members names
    | [value] => return (name, value) :: (← ofMembers members names)
    | _ => throw (.duplicateField name)

/-- Reads the fields with the given names; the last `optional` of an array may be left off. -/
def read (names : List String) (optional : Nat) : Reader Fields
  | .object members =>
    if members.all (·.1.isSome) then ofMembers members names else .error .malformed
  | .array items =>
    if names.length ≤ items.length + optional ∧ items.length ≤ names.length then
      .ok (names.zip items)
    else .error .malformed
  | _ => .error .malformed

/-- Reads a field, if it is present. -/
def get? {α : Type} (fields : Fields) (name : String) (read : Reader α) :
    Except ReadError (Option α) :=
  match fields.lookup name with
  | some value => some <$> read value
  | none => .ok none

/-- Reads a field that must be present. -/
def get {α : Type} (fields : Fields) (name : String) (read : Reader α) : Except ReadError α :=
  match fields.lookup name with
  | some value => read value
  | none => .error (.missingField name)

end Fields

/-- Reads a text with a reader of values. -/
def readText {α : Type} (read : Reader α) (text : String) : Except ReadError α :=
  match ofText? text with
  | some value => read value
  | none => .error .malformed

/-- Reads a text in which everything means something by itself and nothing is nested deeper than
`depth`. -/
def readPlainText {α : Type} (depth : Nat) (read : Reader α) (text : String) :
    Except ReadError α :=
  match ofPlainText? depth text with
  | some value => read value
  | none => .error .malformed

end Json

end PayrollSeal
