import PayrollSeal.Json.Basic
import PayrollSeal.Hex

/-!
# Tokens of JSON

A value is written as its tokens one after another, without blanks. A text is written with the
short escapes where there are any, other control characters in hex, and everything else as it is.
-/

namespace PayrollSeal.Json

/-- A token. -/
inductive Token where
  | openArray
  | closeArray
  | openObject
  | closeObject
  | comma
  | colon
  | null
  | bool (value : Bool)
  | number (value : Number)
  | text (value : Text)

/-- The form of a character inside a text. -/
def escape (c : Char) : List Char :=
  if c = '"' then ['\\', '"']
  else if c = '\\' then ['\\', '\\']
  else if c = '\n' then ['\\', 'n']
  else if c = '\r' then ['\\', 'r']
  else if c = '\t' then ['\\', 't']
  else if c.toNat = 8 then ['\\', 'b']
  else if c.toNat = 12 then ['\\', 'f']
  else if c.toNat < 32 then '\\' :: 'u' :: '0' :: '0' :: Hex.ofByte c.toNat.toUInt8
  else [c]

/-- The form of a text, quotes included. -/
def quote : Text → List Char
  | some s => '"' :: s.toList.flatMap escape ++ ['"']
  | none => "\"\\ud800\"".toList

/-- The characters of a token. -/
def Token.chars : Token → List Char
  | openArray => ['[']
  | closeArray => [']']
  | openObject => [Char.ofNat 123]
  | closeObject => [Char.ofNat 125]
  | comma => [',']
  | colon => [':']
  | null => ['n', 'u', 'l', 'l']
  | bool true => ['t', 'r', 'u', 'e']
  | bool false => ['f', 'a', 'l', 's', 'e']
  | number value => value.chars
  | text value => quote value

mutual

/-- The tokens of a value. -/
def tokens : Json → List Token
  | .null => [.null]
  | .bool value => [.bool value]
  | .number value => [.number value]
  | .text value => [.text value]
  | .array [] => [.openArray, .closeArray]
  | .array (item :: items) => .openArray :: (tokens item ++ tokensOfItems items)
  | .object [] => [.openObject, .closeObject]
  | .object ((name, value) :: members) =>
    .openObject :: .text name :: .colon :: (tokens value ++ tokensOfMembers members)

/-- The tokens of the items after the first, and the end of their array. -/
def tokensOfItems : List Json → List Token
  | [] => [.closeArray]
  | item :: items => .comma :: (tokens item ++ tokensOfItems items)

/-- The tokens of the members after the first, and the end of their object. -/
def tokensOfMembers : List (Text × Json) → List Token
  | [] => [.closeObject]
  | (name, value) :: members =>
    .comma :: .text name :: .colon :: (tokens value ++ tokensOfMembers members)

end

/-- The text of a value without blanks. -/
def compact (value : Json) : String :=
  String.ofList (value.tokens.flatMap Token.chars)

/-- The characters of a token in an indented text, given the depth of the line that it stands on:
items and members stand on lines of their own, two blanks deeper than what holds them. -/
def Token.indented (depth : Nat) (token : Token) (next : Option Token) : Nat × List Char :=
  let line (depth : Nat) : List Char := '\n' :: List.replicate (2 * depth) ' '
  match token, next with
  | openArray, some closeArray => (depth, token.chars)
  | openObject, some closeObject => (depth, token.chars)
  | openArray, _ | openObject, _ => (depth + 1, token.chars ++ line (depth + 1))
  | comma, _ => (depth, token.chars ++ line depth)
  | colon, _ => (depth, token.chars ++ [' '])
  | _, some closeArray | _, some closeObject => (depth - 1, token.chars ++ line (depth - 1))
  | _, _ => (depth, token.chars)

/-- The characters of tokens in an indented text. -/
def indentedFrom (depth : Nat) : List Token → List Char
  | [] => []
  | token :: rest =>
    let (depth, chars) := token.indented depth rest.head?
    chars ++ indentedFrom depth rest

/-- The text of a value with one item or member a line. -/
def pretty (value : Json) : String :=
  String.ofList (indentedFrom 0 value.tokens)

end PayrollSeal.Json
