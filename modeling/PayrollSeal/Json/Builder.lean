import PayrollSeal.Json.Lexer

/-!
# Building values from tokens

Tokens are taken one at a time. The arrays and objects that are open are kept on a stack,
innermost first, each with the items or members that it has so far, last one first.
-/

namespace PayrollSeal.Json

/-- An array or an object that is open, before the value that comes next in it. -/
inductive Open where
  | array (items : List Json)
  | object (members : List (Text × Json)) (name : Text)

/-- What may come next. -/
inductive Builder where
  /-- A value. -/
  | value (stack : List Open)
  /-- The first item of an array, or its end. -/
  | firstItem (stack : List Open)
  /-- The first name of an object, or its end. -/
  | firstName (stack : List Open)
  /-- A name. -/
  | name (members : List (Text × Json)) (stack : List Open)
  /-- The colon behind a name. -/
  | colon (members : List (Text × Json)) (name : Text) (stack : List Open)
  /-- What follows a value. -/
  | after (value : Json) (stack : List Open)

namespace Builder

/-- Takes the first token of a value. -/
def begin (stack : List Open) : Token → Option Builder
  | .null => some (.after .null stack)
  | .bool b => some (.after (.bool b) stack)
  | .number n => some (.after (.number n) stack)
  | .text t => some (.after (.text t) stack)
  | .openArray => some (.firstItem stack)
  | .openObject => some (.firstName stack)
  | _ => none

/-- Takes one token. -/
def step : Builder → Token → Option Builder
  | .value stack, token => begin stack token
  | .firstItem stack, .closeArray => some (.after (.array []) stack)
  | .firstItem stack, token => begin (.array [] :: stack) token
  | .firstName stack, .closeObject => some (.after (.object []) stack)
  | .firstName stack, .text key => some (.colon [] key stack)
  | .name members stack, .text key => some (.colon members key stack)
  | .colon members key stack, .colon => some (.value (.object members key :: stack))
  | .after v (.array items :: stack), .comma => some (.value (.array (v :: items) :: stack))
  | .after v (.array items :: stack), .closeArray =>
    some (.after (.array (v :: items).reverse) stack)
  | .after v (.object members key :: stack), .comma => some (.name ((key, v) :: members) stack)
  | .after v (.object members key :: stack), .closeObject =>
    some (.after (.object ((key, v) :: members).reverse) stack)
  | _, _ => none

/-- The value, if it is complete. -/
def finish : Builder → Option Json
  | .after v [] => some v
  | _ => none

end Builder

/-- The value that tokens write. -/
def build? (tokens : List Token) : Option Json :=
  (tokens.foldlM Builder.step (.value [])).bind Builder.finish

/-- The value that a text writes. -/
def ofText? (text : String) : Option Json :=
  (lex? text).bind build?

/-- The value that a text writes, if every text and number in it means something by itself and
nothing is nested deeper than `depth`. -/
def ofPlainText? (depth : Nat) (text : String) : Option Json := do
  let tokens ← lex? text
  guard (tokens.all Token.isPlain && nestsWithin depth tokens)
  build? tokens

end PayrollSeal.Json
