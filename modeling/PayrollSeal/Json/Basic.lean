import PayrollSeal.Json.Number

/-!
# JSON values

A value keeps all that was written but blanks and the way in which characters were escaped:
members keep their order and may repeat, and numbers keep their form.
-/

namespace PayrollSeal

/-- A text in JSON. `none` is a text that spells half of a surrogate pair, and so no string. -/
abbrev Json.Text := Option String

/-- A JSON value. -/
inductive Json where
  | null
  | bool (value : Bool)
  | number (value : Json.Number)
  | text (value : Json.Text)
  | array (items : List Json)
  | object (members : List (Json.Text × Json))

namespace Json

/-- The value that writes a natural number. -/
def ofNat (n : Nat) : Json := .number (.ofNat n)

/-- The value that writes a string. -/
def ofString (s : String) : Json := .text (some s)

/-- The object with the given members. -/
def record (members : List (String × Json)) : Json :=
  .object (members.map fun (name, value) => (some name, value))

end Json

end PayrollSeal
