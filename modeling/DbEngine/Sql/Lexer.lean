import DbEngine.Sql.Ast

/-!
# Tokens

`sql/token.h` and `sql/lexer.cpp`.  A statement is a string of bytes; the character classes
are those of the C locale.
-/

namespace DbEngine.Sql

/-- `TokenType`. -/
inductive TokenType where
  | identifier
  | integerLiteral
  | stringLiteral
  | lparen
  | rparen
  | comma
  | semicolon
  | star
  | eq
  | lt
  | le
  | gt
  | ge
  | «end»
  deriving Repr, DecidableEq

/-- `Token`. -/
structure Token where
  type : TokenType
  text : Bytes
  intValue : Int64 := 0
  deriving Repr, DecidableEq

/-- What `Parser::Parse` can throw. -/
inductive SyntaxFailure where
  | sqlException (message : String)
  /-- `std::out_of_range`, from `std::stoll`. -/
  | outOfRange
  deriving Repr, DecidableEq

/-- Bytes as a string, one character for each. -/
def toText (bytes : Bytes) : String := String.ofList (bytes.map fun byte => Char.ofNat byte.toNat)

/-! ## Character classes -/

/-- `std::isspace`. -/
def isSpace (c : UInt8) : Bool := c = 32 || (9 ≤ c && c ≤ 13)

/-- `std::isdigit`. -/
def isDigit (c : UInt8) : Bool := '0'.toUInt8 ≤ c && c ≤ '9'.toUInt8

/-- `std::isalpha`. -/
def isAlpha (c : UInt8) : Bool :=
  ('a'.toUInt8 ≤ c && c ≤ 'z'.toUInt8) || ('A'.toUInt8 ≤ c && c ≤ 'Z'.toUInt8)

/-- `std::isalnum`. -/
def isAlnum (c : UInt8) : Bool := isAlpha c || isDigit c

/-- `std::toupper`. -/
def toUpperByte (c : UInt8) : UInt8 :=
  if 'a'.toUInt8 ≤ c && c ≤ 'z'.toUInt8 then c - 32 else c

/-- The first character of an identifier. -/
def startsIdentifier (c : UInt8) : Bool := isAlpha c || c = '_'.toUInt8

/-- A further character of an identifier. -/
def continuesIdentifier (c : UInt8) : Bool := isAlnum c || c = '_'.toUInt8

def quote : UInt8 := '\''.toUInt8

/-! ## The tokens of a statement -/

/-- The number that a string of digits stands for. -/
def digitsValue (digits : Bytes) : Nat :=
  digits.foldl (fun value digit => 10 * value + (digit.toNat - '0'.toNat)) 0

/-- The number that the text of an integer literal stands for. -/
def literalValue : Bytes → Int
  | [] => 0
  | c :: rest => if c = '-'.toUInt8 then -digitsValue rest else digitsValue (c :: rest)

/-- `std::stoll`. -/
def stoll (text : Bytes) : Except SyntaxFailure Int64 :=
  let value := literalValue text
  if -2 ^ 63 ≤ value ∧ value < 2 ^ 63 then .ok (Int64.ofInt value) else .error .outOfRange

/-- One round of the loop of `Tokenize` at a character that is not a space: the token that
begins there and the rest of the input. -/
def nextToken (position : Nat) (c : UInt8) (rest : Bytes) :
    Except SyntaxFailure (Token × Bytes) :=
  if c = '('.toUInt8 then .ok ({ type := .lparen, text := [c] }, rest)
  else if c = ')'.toUInt8 then .ok ({ type := .rparen, text := [c] }, rest)
  else if c = ','.toUInt8 then .ok ({ type := .comma, text := [c] }, rest)
  else if c = ';'.toUInt8 then .ok ({ type := .semicolon, text := [c] }, rest)
  else if c = '*'.toUInt8 then .ok ({ type := .star, text := [c] }, rest)
  else if c = '='.toUInt8 then .ok ({ type := .eq, text := [c] }, rest)
  else if c = '<'.toUInt8 then
    if rest.head? = some '='.toUInt8 then
      .ok ({ type := .le, text := [c, '='.toUInt8] }, rest.tail)
    else .ok ({ type := .lt, text := [c] }, rest)
  else if c = '>'.toUInt8 then
    if rest.head? = some '='.toUInt8 then
      .ok ({ type := .ge, text := [c, '='.toUInt8] }, rest.tail)
    else .ok ({ type := .gt, text := [c] }, rest)
  else if c = quote then
    match rest.dropWhile (· ≠ quote) with
    | [] => .error (.sqlException
        ("unterminated string literal starting at position " ++ toString position))
    | _ :: after => .ok ({ type := .stringLiteral, text := rest.takeWhile (· ≠ quote) }, after)
  else if isDigit c || (c = '-'.toUInt8 && rest.head?.any isDigit) then do
    let text := c :: rest.takeWhile isDigit
    let value ← stoll text
    return ({ type := .integerLiteral, text, intValue := value }, rest.dropWhile isDigit)
  else if startsIdentifier c then
    .ok ({ type := .identifier, text := c :: rest.takeWhile continuesIdentifier },
      rest.dropWhile continuesIdentifier)
  else .error (.sqlException
    ("unexpected character '" ++ toText [c] ++ "' at position " ++ toString position))

/-- The loop of `Tokenize`.  Each round takes at least one character, so as many rounds as
there are characters are enough. -/
def tokenizeLoop (size : Nat) : Nat → Bytes → Except SyntaxFailure (List Token)
  | rounds + 1, c :: rest =>
    if isSpace c then tokenizeLoop size rounds rest
    else do
      let (token, left) ← nextToken (size - (c :: rest).length) c rest
      let tokens ← tokenizeLoop size rounds left
      return token :: tokens
  | _, _ => .ok [{ type := .end, text := [] }]

/-- `Lexer::Tokenize`. -/
def tokenize (sql : Bytes) : Except SyntaxFailure (List Token) :=
  tokenizeLoop sql.length sql.length sql

end DbEngine.Sql
