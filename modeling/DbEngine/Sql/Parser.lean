import DbEngine.Lib.TokenParser
import DbEngine.Sql.Lexer

/-!
# The parser

`sql/parser.cpp`.  `Peek` and `Advance` work on the tokens that are left.  A test of the next
token and the `Advance` over it are one step here.
-/

namespace DbEngine.Sql

open Lib
open Lib.TokenParser (fail take accept separated)

abbrev SqlParser := TokenParser Token SyntaxFailure

/-- `ToUpper`. -/
def toUpper (text : Bytes) : Bytes := text.map toUpperByte

/-- `IsKeyword` of a token. -/
def isKeyword (keyword : String) (token : Token) : Bool :=
  token.type = .identifier && toText (toUpper token.text) = keyword

/-- A message that names the token that was found. -/
def expected (what : String) (token : Token) : SyntaxFailure :=
  .sqlException ("expected " ++ what ++ ", got '" ++ toText token.text ++ "'")

/-- `ExpectKeyword`. -/
def expectKeyword (keyword : String) : SqlParser Unit :=
  take (fun token => if isKeyword keyword token then some () else none)
    (expected ("keyword '" ++ keyword ++ "'"))

/-- `ExpectType`. -/
def expectType (type : TokenType) (what : String) : SqlParser Bytes :=
  take (fun token => if token.type = type then some token.text else none) (expected what)

/-- `ExpectIdentifier`. -/
def expectIdentifier : SqlParser String := do
  let text ← expectType .identifier "identifier"
  return toText text

/-- `ParseColumnType`. -/
def parseColumnType : SqlParser ColumnType :=
  take (fun token =>
      if isKeyword "INTEGER" token then some .integer
      else if isKeyword "TEXT" token then some .text
      else none)
    (expected "column type (INTEGER or TEXT)")

/-- `ParseLiteral`. -/
def parseLiteral : SqlParser Value :=
  take (fun token =>
      match token.type with
      | .integerLiteral => some (.integer token.intValue)
      | .stringLiteral => some (.text token.text)
      | _ => none)
    (expected "a literal value")

/-- `ParseCompareOp`. -/
def parseCompareOp : SqlParser CompareOp :=
  take (fun token =>
      match token.type with
      | .eq => some .eq
      | .lt => some .lt
      | .le => some .le
      | .gt => some .gt
      | .ge => some .ge
      | _ => none)
    (expected "a comparison operator (=, <, <=, >, >=)")

/-- The next token is a comma. -/
def isComma (token : Token) : Bool := token.type = .comma

/-- A comparison of the `WHERE` clause. -/
def parseComparison : SqlParser Comparison := do
  let column ← expectIdentifier
  let op ← parseCompareOp
  let literal ← parseLiteral
  return { column, op, literal }

/-- `ParseWhereClause`. -/
def parseWhereClause : SqlParser Predicate := do
  if ← accept (isKeyword "WHERE") then
    separated parseComparison (isKeyword "AND")
  else
    return []

/-- A column of `CREATE TABLE`. -/
def parseColumn : SqlParser ColumnDef := do
  let name ← expectIdentifier
  let type ← parseColumnType
  return { name, type }

/-- The checks at the end of `ParseCreateTable`. -/
def checkColumns (tableName : String) : List ColumnDef → SqlParser Statement
  | [] => fail (.sqlException "CREATE TABLE needs at least one column")
  | first :: others =>
    if keyed : Keyed (first :: others) then
      return .createTable { tableName, columns := first :: others, keyed }
    else
      fail (.sqlException ("the first column ('" ++ first.name ++
        "') must be INTEGER — it is the table's primary key"))

/-- `ParseCreateTable`, behind `CREATE`. -/
def parseCreateTable : SqlParser Statement := do
  expectKeyword "TABLE"
  let tableName ← expectIdentifier
  let _ ← expectType .lparen "'('"
  let columns ← separated parseColumn isComma
  let _ ← expectType .rparen "')'"
  checkColumns tableName columns

/-- `ParseInsert`, behind `INSERT`. -/
def parseInsert : SqlParser Statement := do
  expectKeyword "INTO"
  let tableName ← expectIdentifier
  expectKeyword "VALUES"
  let _ ← expectType .lparen "'('"
  let values ← separated parseLiteral isComma
  let _ ← expectType .rparen "')'"
  return .insert { tableName, values }

/-- The columns of `SELECT`: all of them, or those that are named. -/
def parseSelection : SqlParser (Bool × List String) := do
  if ← accept (fun token => token.type = .star) then
    return (true, [])
  else do
    let columns ← separated expectIdentifier isComma
    return (false, columns)

/-- `ParseSelect`, behind `SELECT`. -/
def parseSelect : SqlParser Statement := do
  let selection ← parseSelection
  expectKeyword "FROM"
  let tableName ← expectIdentifier
  let whereClause ← parseWhereClause
  return .select { tableName, selectStar := selection.1, columns := selection.2, whereClause }

/-- `ParseDelete`, behind `DELETE`. -/
def parseDelete : SqlParser Statement := do
  expectKeyword "FROM"
  let tableName ← expectIdentifier
  let whereClause ← parseWhereClause
  return .delete { tableName, whereClause }

/-- `ParseStatement`. -/
def parseStatement : SqlParser Statement := do
  if ← accept (isKeyword "CREATE") then parseCreateTable
  else if ← accept (isKeyword "INSERT") then parseInsert
  else if ← accept (isKeyword "SELECT") then parseSelect
  else if ← accept (isKeyword "DELETE") then parseDelete
  else take (fun _ => none) (expected "CREATE, INSERT, SELECT, or DELETE")

/-- `ExpectEndOfStatement`. -/
def expectEndOfStatement : SqlParser Unit := do
  let _ ← accept (fun token => token.type = .semicolon)
  let token ← TokenParser.peek
  if token.type = .end then return ()
  else fail (.sqlException ("unexpected trailing input near '" ++ toText token.text ++ "'"))

/-- `ParseStatement` and then `ExpectEndOfStatement`. -/
def parseWhole : SqlParser Statement := do
  let stmt ← parseStatement
  expectEndOfStatement
  return stmt

/-- The two calls on some tokens. -/
def parseTokens (tokens : List Token) : Except (ParseError SyntaxFailure) Statement :=
  (parseWhole tokens).map Prod.fst

/-- `Parser::Parse`. -/
def parse (sql : Bytes) : Except (ParseError SyntaxFailure) Statement :=
  match tokenize sql with
  | .error failure => .error (.failed failure)
  | .ok tokens => parseTokens tokens

end DbEngine.Sql
