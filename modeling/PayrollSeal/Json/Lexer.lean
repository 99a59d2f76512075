import PayrollSeal.Json.Token

/-!
# Reading tokens

Characters are read one at a time. Between tokens blanks are dropped; a number or a word goes on
for as long as its characters do, and a text goes on to its closing quote. A text is read as
pieces, because a character may be spelled as two halves of a surrogate pair, and the pieces are
joined when the text ends. What has been read is kept last one first.
-/

namespace PayrollSeal.Json

/-! ## Texts -/

/-- A piece of a text: a character or half of a surrogate pair. -/
inductive Piece where
  | char (c : Char)
  | half (code : Nat)

namespace Piece

/-- Whether a code is the first half of a pair. -/
def isHigh (code : Nat) : Bool := 0xD800 ≤ code && code < 0xDC00

/-- Whether a code is the second half of a pair. -/
def isLow (code : Nat) : Bool := 0xDC00 ≤ code && code < 0xE000

/-- The piece that a code spells. -/
def ofCode (code : Nat) : Piece :=
  if isHigh code || isLow code then .half code else .char (Char.ofNat code)

/-- The character that a pair spells. -/
def pair (high low : Nat) : Char :=
  Char.ofNat (0x10000 + (high - 0xD800) * 0x400 + (low - 0xDC00))

/-- Joins pieces in front of characters, the last piece first; a half that stands alone spells
nothing. -/
def join (chars : List Char) : List Piece → Option (List Char)
  | [] => some chars
  | .char c :: rest => join (c :: chars) rest
  | .half low :: .half high :: rest =>
    if isHigh high && isLow low then join (pair high low :: chars) rest else none
  | .half _ :: _ => none

/-- The text that pieces spell, the last piece first. -/
def text (pieces : List Piece) : Text :=
  (join [] pieces).map String.ofList

end Piece

/-- The character that a short escape stands for. -/
def unescape? (c : Char) : Option Char :=
  if c = '"' ∨ c = '\\' ∨ c = '/' then some c
  else if c = 'n' then some '\n'
  else if c = 'r' then some '\r'
  else if c = 't' then some '\t'
  else if c = 'b' then some (Char.ofNat 8)
  else if c = 'f' then some (Char.ofNat 12)
  else none

/-! ## The lexer -/

/-- What the last character read belongs to. -/
inductive Inside where
  | nothing
  | number (read : List Char)
  | word (read : List Char)
  | text (read : List Piece)
  /-- Behind a backslash. -/
  | escape (read : List Piece)
  /-- Inside a code of four hex digits, `left` of which are missing. -/
  | code (read : List Piece) (value left : Nat)

/-- The tokens read so far and where the lexer stands. -/
structure Lexer where
  tokens : List Token
  inside : Inside

/-- Whether a character is a blank between tokens. -/
def isBlank (c : Char) : Bool :=
  c == ' ' || c == '\n' || c == '\r' || c == '\t'

/-- Whether a character can stand in a number. -/
def isNumberChar (c : Char) : Bool :=
  c.isDigit || c == '-' || c == '+' || c == '.' || c == 'e' || c == 'E'

/-- The token that a word is. -/
def Token.ofWord? (word : List Char) : Option Token :=
  if word = Token.null.chars then some .null
  else if word = (Token.bool true).chars then some (.bool true)
  else if word = (Token.bool false).chars then some (.bool false)
  else none

/-- The token that a character is by itself. -/
def Token.ofMark? (c : Char) : Option Token :=
  if c = '[' then some .openArray
  else if c = ']' then some .closeArray
  else if c.toNat = 123 then some .openObject
  else if c.toNat = 125 then some .closeObject
  else if c = ',' then some .comma
  else if c = ':' then some .colon
  else none

namespace Lexer

/-- Reads a character between tokens. -/
def start (tokens : List Token) (c : Char) : Option Lexer :=
  if isBlank c then some ⟨tokens, .nothing⟩
  else if c = '"' then some ⟨tokens, .text []⟩
  else if c.isDigit || c == '-' then some ⟨tokens, .number [c]⟩
  else if c.isAlpha then some ⟨tokens, .word [c]⟩
  else (Token.ofMark? c).map fun token => ⟨token :: tokens, .nothing⟩

/-- Ends a number or a word; a text cannot end here. -/
def close (lexer : Lexer) : Option (List Token) :=
  match lexer.inside with
  | .nothing => some lexer.tokens
  | .number read => (Number.ofChars? read.reverse).map (.number · :: lexer.tokens)
  | .word read => (Token.ofWord? read.reverse).map (· :: lexer.tokens)
  | .text _ | .escape _ | .code .. => none

/-- Reads one character. -/
def step (lexer : Lexer) (c : Char) : Option Lexer :=
  match lexer.inside with
  | .nothing => start lexer.tokens c
  | .number read =>
    if isNumberChar c then some ⟨lexer.tokens, .number (c :: read)⟩
    else lexer.close.bind (start · c)
  | .word read =>
    if c.isAlpha then some ⟨lexer.tokens, .word (c :: read)⟩
    else lexer.close.bind (start · c)
  | .text read =>
    if c = '"' then some ⟨.text (Piece.text read) :: lexer.tokens, .nothing⟩
    else if c = '\\' then some ⟨lexer.tokens, .escape read⟩
    else if c.toNat < 32 then none
    else some ⟨lexer.tokens, .text (.char c :: read)⟩
  | .escape read =>
    if c = 'u' then some ⟨lexer.tokens, .code read 0 4⟩
    else (unescape? c).map fun c => ⟨lexer.tokens, .text (.char c :: read)⟩
  | .code read value left =>
    (Hex.value? c).map fun digit =>
      let value := value * 16 + digit.toNat
      if left ≤ 1 then ⟨lexer.tokens, .text (.ofCode value :: read)⟩
      else ⟨lexer.tokens, .code read value (left - 1)⟩

end Lexer

/-- The tokens of a text, if it is made of tokens and blanks. -/
def lex? (text : String) : Option (List Token) :=
  ((text.toList.foldlM Lexer.step ⟨[], .nothing⟩).bind Lexer.close).map List.reverse

/-! ## Limits -/

/-- Whether a token means something by itself: a text spells a string, a number is finite. -/
def Token.isPlain : Token → Bool
  | .text value => value.isSome
  | .number value => value.isFinite
  | _ => true

/-- Whether arrays and objects are open at most `room` deep. -/
def nestsWithin (room : Nat) : List Token → Bool
  | [] => true
  | token :: rest =>
    match token with
    | .openArray | .openObject => room != 0 && nestsWithin (room - 1) rest
    | .closeArray | .closeObject => nestsWithin (room + 1) rest
    | _ => nestsWithin room rest

end PayrollSeal.Json
