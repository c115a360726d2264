import DbEngine.Sql.Rendering

/-!
# Parsing what was written

The tokens a statement is written with, and that `Parser::Parse` of their text is the
statement again.
-/

namespace DbEngine.Sql

open Lib

/-! ## The tokens of a statement -/

/-- The bytes of a string, one for each character. -/
def nameBytes (name : String) : Bytes := name.toList.map fun c => UInt8.ofNat c.toNat

/-- A name or a keyword. -/
def word (name : String) : Token := { type := .identifier, text := nameBytes name }

def symbol (type : TokenType) (text : String) : Token := { type, text := nameBytes text }

def Value.token : Value → Token
  | .integer value => { type := .integerLiteral, text := decimal value, intValue := value }
  | .text value => { type := .stringLiteral, text := value }

def ColumnType.token : ColumnType → Token
  | .integer => word "INTEGER"
  | .text => word "TEXT"

def CompareOp.token : CompareOp → Token
  | .eq => symbol .eq "="
  | .lt => symbol .lt "<"
  | .le => symbol .le "<="
  | .gt => symbol .gt ">"
  | .ge => symbol .ge ">="

def Comparison.tokens (comparison : Comparison) : List Token :=
  [word comparison.column, comparison.op.token, comparison.literal.token]

def ColumnDef.tokens (column : ColumnDef) : List Token := [word column.name, column.type.token]

/-- Items with a separator between them. -/
def separatedTokens {α : Type} (separator : Token) (tokens : α → List Token) : List α → List Token
  | [] => []
  | [value] => tokens value
  | value :: next :: rest =>
    tokens value ++ separator :: separatedTokens separator tokens (next :: rest)

/-- Items with commas between them. -/
def listTokens {α : Type} (tokens : α → List Token) (values : List α) : List Token :=
  separatedTokens (symbol .comma ",") tokens values

def whereTokens (predicate : Predicate) : List Token :=
  if predicate = [] then []
  else word "WHERE" :: separatedTokens (word "AND") Comparison.tokens predicate

def selectionTokens (selectStar : Bool) (columns : List String) : List Token :=
  if selectStar then [symbol .star "*"] else listTokens (fun name => [word name]) columns

def Statement.tokens : Statement → List Token
  | .createTable stmt =>
    word "CREATE" :: word "TABLE" :: word stmt.tableName :: symbol .lparen "(" ::
      (listTokens ColumnDef.tokens stmt.columns ++ [symbol .rparen ")"])
  | .insert stmt =>
    word "INSERT" :: word "INTO" :: word stmt.tableName :: word "VALUES" :: symbol .lparen "(" ::
      (listTokens (fun value => [value.token]) stmt.values ++ [symbol .rparen ")"])
  | .select stmt =>
    word "SELECT" :: (selectionTokens stmt.selectStar stmt.columns ++
      word "FROM" :: word stmt.tableName :: whereTokens stmt.whereClause)
  | .delete stmt =>
    word "DELETE" :: word "FROM" :: word stmt.tableName :: whereTokens stmt.whereClause

/-! ## Statements that can be written -/

/-- A name of the form `[A-Za-z_][A-Za-z0-9_]*`. -/
def IsName (name : String) : Prop := ∃ bytes, IsIdentifier bytes ∧ name = toText bytes

/-- An integer, or a string without a quote. -/
def Value.Plain : Value → Prop
  | .integer _ => True
  | .text value => ∀ c ∈ value, c ≠ quote

def Comparison.Plain (comparison : Comparison) : Prop :=
  IsName comparison.column ∧ comparison.literal.Plain

/-- A statement of the grammar whose names are identifiers and whose strings have no quote. -/
def Statement.Plain : Statement → Prop
  | .createTable stmt => IsName stmt.tableName ∧ ∀ column ∈ stmt.columns, IsName column.name
  | .insert stmt => IsName stmt.tableName ∧ stmt.values ≠ [] ∧ ∀ value ∈ stmt.values, value.Plain
  | .select stmt =>
    IsName stmt.tableName ∧ (stmt.selectStar = true ↔ stmt.columns = []) ∧
      (∀ name ∈ stmt.columns, IsName name) ∧
      ∀ comparison ∈ stmt.whereClause, comparison.Plain
  | .delete stmt => IsName stmt.tableName ∧ ∀ comparison ∈ stmt.whereClause, comparison.Plain

/-! ## The tokens are those of the grammar -/

lemma byte_of_char : ∀ byte : UInt8, UInt8.ofNat (Char.ofNat byte.toNat).toNat = byte :=
  forall_byte (by decide +kernel)

lemma nameBytes_toText (bytes : Bytes) : nameBytes (toText bytes) = bytes := by
  rw [nameBytes, toText, String.toList_ofList, map_map]
  have same : ((fun c => UInt8.ofNat c.toNat) ∘ fun byte : UInt8 => Char.ofNat byte.toNat) = id := by
    funext byte
    exact byte_of_char byte
  rw [same, map_id]

lemma IsName.spelled {name : String} (isName : IsName name) : (word name).Spelled := by
  obtain ⟨bytes, identifier, rfl⟩ := isName
  constructor
  · change IsIdentifier (nameBytes (toText bytes))
    rwa [nameBytes_toText]
  · rfl

lemma IsName.name {name : String} (isName : IsName name) : Name [word name] name := by
  obtain ⟨bytes, -, rfl⟩ := isName
  have named : Name [word (toText bytes)] (toText (nameBytes (toText bytes))) := .mk rfl
  rwa [nameBytes_toText] at named

lemma Value.literal (value : Value) : Literal [value.token] value := by
  cases value with
  | integer value => exact .integer rfl
  | text value => exact .text rfl

lemma Value.Plain.spelled {value : Value} (plain : value.Plain) : value.token.Spelled := by
  cases value with
  | integer value => rfl
  | text value => exact ⟨plain, rfl⟩

lemma CompareOp.operator (op : CompareOp) : Operator [op.token] op := by
  cases op with
  | eq => exact .eq (.mk rfl)
  | lt => exact .lt (.mk rfl)
  | le => exact .le (.mk rfl)
  | gt => exact .gt (.mk rfl)
  | ge => exact .ge (.mk rfl)

lemma CompareOp.spelled (op : CompareOp) : op.token.Spelled := by
  cases op <;> exact ⟨rfl, rfl⟩

lemma ColumnType.typeName (type : ColumnType) : TypeName [type.token] type := by
  cases type with
  | integer => exact .integer (.mk (by decide))
  | text => exact .text (.mk (by decide))

variable {α : Type} {separator : Token} {values : List α} {predicate : Predicate}
  {selectStar : Bool} {columns : List String} {stmt : Statement} {keyword : String}

lemma separated_tokens {item : List Token → α → Prop} (separates : isSeparator separator = true)
    (some : values ≠ []) (holds : ∀ value ∈ values, item (tokens value) value) :
    Separated item isSeparator (separatedTokens separator tokens values) values := by
  induction values with
  | nil => exact absurd rfl some
  | cons value rest ih =>
    have first := holds value mem_cons_self
    cases rest with
    | nil => exact .last first
    | cons next rest =>
      apply Separated.more first separates
      exact ih (cons_ne_nil _ _) fun other mem => holds other (mem_cons_of_mem _ mem)

lemma spelled_separatedTokens {tokens : α → List Token} (spells : separator.Spelled)
    (holds : ∀ value ∈ values, ∀ token ∈ tokens value, token.Spelled) :
    ∀ token ∈ separatedTokens separator tokens values, token.Spelled := by
  induction values with
  | nil => exact nofun
  | cons value rest ih =>
    have first := holds value mem_cons_self
    cases rest with
    | nil => exact first
    | cons next rest =>
      have later := ih fun other mem => holds other (mem_cons_of_mem _ mem)
      rw [separatedTokens, List.forall_mem_append, forall_mem_cons]
      exact ⟨first, spells, later⟩

lemma whereOf_tokens (plain : ∀ comparison ∈ predicate, comparison.Plain) :
    WhereOf (whereTokens predicate) predicate := by
  rw [whereTokens]
  split
  next none => rw [none]; exact .none
  next some =>
    have begins : Keyword "WHERE" [word "WHERE"] := .mk (by decide)
    apply WhereOf.some begins
    apply separated_tokens (by decide) some
    intro comparison mem
    exact .mk (plain comparison mem).1.name comparison.op.operator comparison.literal.literal

lemma selectionOf_tokens (none : selectStar = true ↔ columns = [])
    (named : ∀ name ∈ columns, IsName name) :
    SelectionOf (selectionTokens selectStar columns) (selectStar, columns) := by
  cases selectStar with
  | true =>
    rw [none.mp rfl]
    exact .all (.mk rfl)
  | false =>
    have some : columns ≠ [] := fun empty => Bool.false_ne_true (none.mpr empty)
    apply SelectionOf.columns
    exact separated_tokens (by decide) some fun name mem => (named name mem).name

/-- A statement's tokens derive it. -/
lemma statementOf_tokens (plain : stmt.Plain) : StatementOf stmt.tokens stmt := by
  cases stmt with
  | createTable stmt =>
    obtain ⟨named, columns⟩ := plain
    have begins : Keyword "CREATE" [word "CREATE"] := .mk (by decide)
    have isTable : Keyword "TABLE" [word "TABLE"] := .mk (by decide)
    have some : stmt.columns ≠ [] := by
      intro none
      have keyed := stmt.keyed
      rw [none] at keyed
      cases keyed
    apply StatementWith.createTable begins
    apply CreateTableOf.mk isTable named.name (.mk rfl) _ (.mk rfl)
    apply separated_tokens (by decide) some
    intro column mem
    exact .mk (columns column mem).name column.type.typeName
  | insert stmt =>
    obtain ⟨named, some, values⟩ := plain
    have begins : Keyword "INSERT" [word "INSERT"] := .mk (by decide)
    have isInto : Keyword "INTO" [word "INTO"] := .mk (by decide)
    have isValues : Keyword "VALUES" [word "VALUES"] := .mk (by decide)
    apply StatementWith.insert begins
    apply InsertOf.mk isInto named.name isValues (.mk rfl) _ (.mk rfl)
    exact separated_tokens (by decide) some fun value _ => value.literal
  | select stmt =>
    obtain ⟨named, none, columns, comparisons⟩ := plain
    have begins : Keyword "SELECT" [word "SELECT"] := .mk (by decide)
    have isFrom : Keyword "FROM" [word "FROM"] := .mk (by decide)
    apply StatementWith.select begins
    exact .mk (selectionOf_tokens none columns) isFrom named.name (whereOf_tokens comparisons)
  | delete stmt =>
    obtain ⟨named, comparisons⟩ := plain
    have begins : Keyword "DELETE" [word "DELETE"] := .mk (by decide)
    have isFrom : Keyword "FROM" [word "FROM"] := .mk (by decide)
    apply StatementWith.delete begins
    exact .mk isFrom named.name (whereOf_tokens comparisons)

/-! ## The tokens are spelled as the lexer reads them -/

/-- The keywords of the grammar. -/
def keywords : List String :=
  ["CREATE", "TABLE", "INTEGER", "TEXT", "INSERT", "INTO", "VALUES", "SELECT", "FROM", "WHERE",
    "AND", "DELETE"]

lemma keywords_identifiers : ∀ keyword ∈ keywords,
    toText (nameBytes keyword) = keyword ∧ (nameBytes keyword).head?.any startsIdentifier = true ∧
      (nameBytes keyword).tail.all continuesIdentifier = true := by
  decide +kernel

/-- A keyword is itself a possible name. -/
lemma isName_keyword (mem : keyword ∈ keywords) : IsName keyword := by
  obtain ⟨spelled, first, rest⟩ := keywords_identifiers keyword mem
  refine ⟨nameBytes keyword, ?_, spelled.symm⟩
  cases bytes : nameBytes keyword with
  | nil =>
    rw [bytes] at first
    cases first
  | cons c others =>
    rw [bytes] at first rest
    exact ⟨c, others, rfl, first, all_eq_true.mp rest⟩

lemma spelled_keyword (mem : keyword ∈ keywords) : (word keyword).Spelled :=
  (isName_keyword mem).spelled

lemma ColumnType.spelled (type : ColumnType) : type.token.Spelled := by
  cases type with
  | integer | text => exact spelled_keyword (by decide)

lemma spelled_listTokens {tokens : α → List Token}
    (holds : ∀ value ∈ values, ∀ token ∈ tokens value, token.Spelled) :
    ∀ token ∈ listTokens tokens values, token.Spelled := by
  have comma : (symbol .comma ",").Spelled := ⟨rfl, rfl⟩
  exact spelled_separatedTokens comma holds

lemma spelled_whereTokens (plain : ∀ comparison ∈ predicate, comparison.Plain) :
    ∀ token ∈ whereTokens predicate, token.Spelled := by
  rw [whereTokens]
  split
  · exact nofun
  · rw [forall_mem_cons]
    constructor
    · exact spelled_keyword (by decide)
    · apply spelled_separatedTokens (spelled_keyword (by decide))
      intro comparison mem
      simp only [Comparison.tokens, forall_mem_cons]
      exact ⟨(plain comparison mem).1.spelled, comparison.op.spelled,
        (plain comparison mem).2.spelled, nofun⟩

lemma spelled_selectionTokens (named : ∀ name ∈ columns, IsName name) :
    ∀ token ∈ selectionTokens selectStar columns, token.Spelled := by
  cases selectStar with
  | true => exact forall_mem_singleton.mpr ⟨rfl, rfl⟩
  | false =>
    apply spelled_listTokens
    intro name mem
    exact forall_mem_singleton.mpr (named name mem).spelled

lemma spelled_tokens (plain : stmt.Plain) : ∀ token ∈ stmt.tokens, token.Spelled := by
  have opens : (symbol .lparen "(").Spelled := ⟨rfl, rfl⟩
  have closes : (symbol .rparen ")").Spelled := ⟨rfl, rfl⟩
  cases stmt with
  | createTable stmt =>
    obtain ⟨named, columns⟩ := plain
    have list : ∀ token ∈ listTokens ColumnDef.tokens stmt.columns, token.Spelled := by
      apply spelled_listTokens
      intro column mem
      simp only [ColumnDef.tokens, forall_mem_cons]
      exact ⟨(columns column mem).spelled, column.type.spelled, nofun⟩
    simp only [Statement.tokens, forall_mem_cons, List.forall_mem_append]
    exact ⟨spelled_keyword (by decide), spelled_keyword (by decide), named.spelled, opens, list,
      closes, nofun⟩
  | insert stmt =>
    obtain ⟨named, -, values⟩ := plain
    have list : ∀ token ∈ listTokens (fun value => [value.token]) stmt.values, token.Spelled := by
      apply spelled_listTokens
      intro value mem
      exact forall_mem_singleton.mpr (values value mem).spelled
    simp only [Statement.tokens, forall_mem_cons, List.forall_mem_append]
    exact ⟨spelled_keyword (by decide), spelled_keyword (by decide), named.spelled,
      spelled_keyword (by decide), opens, list, closes, nofun⟩
  | select stmt =>
    obtain ⟨named, -, columns, comparisons⟩ := plain
    simp only [Statement.tokens, forall_mem_cons, List.forall_mem_append]
    exact ⟨spelled_keyword (by decide), spelled_selectionTokens columns,
      spelled_keyword (by decide), named.spelled, spelled_whereTokens comparisons⟩
  | delete stmt =>
    obtain ⟨named, comparisons⟩ := plain
    simp only [Statement.tokens, forall_mem_cons]
    exact ⟨spelled_keyword (by decide), spelled_keyword (by decide), named.spelled,
      spelled_whereTokens comparisons⟩

/-! ## Parsing the text -/

/-- Tokens that stand for the statement, its keywords in any case and perhaps with a `;`, each
spelled as the lexer reads it. -/
def Writes (stmt : Statement) (tokens : List Token) : Prop :=
  Derives (tokens ++ [endToken]) stmt ∧ ∀ token ∈ tokens, token.Spelled

lemma writes_tokens (plain : stmt.Plain) : Writes stmt stmt.tokens :=
  ⟨.plain (statementOf_tokens plain) (.mk rfl), spelled_tokens plain⟩

lemma isEnd_of_spelled (spelled : token.Spelled) : isEnd token = false := by
  obtain ⟨type, text, value⟩ := token
  cases type with
  | «end» => exact spelled.elim
  | _ => rfl

lemma parse_of_writes (writes : Writes stmt tokens) (spaced : Spaced tokens text) :
    parse text = .ok stmt := by
  obtain ⟨derives, spelled⟩ := writes
  rw [parse, tokenize_spaced spaced spelled]
  exact (parseTokens_iff fun token mem => isEnd_of_spelled (spelled token mem)).mpr derives

/-- One space in front of every token. -/
def spaceOut : List Token → Bytes
  | [] => []
  | token :: rest => [32] ++ (token.word ++ spaceOut rest)

lemma spaced_spaceOut (tokens : List Token) : Spaced tokens (spaceOut tokens) := by
  induction tokens with
  | nil => exact .nil nofun
  | cons token rest ih =>
    apply Spaced.cons (forall_mem_singleton.mpr rfl) ih
    intro c head
    cases rest with
    | nil => cases head
    | cons next others =>
      cases head
      rfl

/-- The parser accepts exactly its grammar and never looks behind the end token, and every
statement is read back from any text that writes it. -/
theorem parser_accepts_grammar :
    (∀ (body : List Token) (last : Token), last.type = .end →
      (∀ token ∈ body, token.type ≠ .end) →
      (∀ stmt, parseTokens (body ++ [last]) = .ok stmt ↔ Derives (body ++ [last]) stmt) ∧
        parseTokens (body ++ [last]) ≠ .error .pastEnd) ∧
    ∀ stmt : Statement, stmt.Plain →
      Writes stmt stmt.tokens ∧
        ∀ tokens text, Writes stmt tokens → Spaced tokens text → parse text = .ok stmt := by
  constructor
  · intro body last ends single
    have inside : ∀ token ∈ body, isEnd token = false := fun token mem =>
      decide_eq_false (single token mem)
    have ahead : Ahead isEnd (body ++ [last]) := ⟨last, by simp, decide_eq_true ends⟩
    exact ⟨fun _ => parseTokens_iff inside, parseTokens_ne_pastEnd ahead⟩
  · intro stmt plain
    exact ⟨writes_tokens plain, fun _ _ writes spaced => parse_of_writes writes spaced⟩

/-- `SELECT AND FROM FROM WHERE WHERE = -1`: every name is a keyword. -/
def keywordNames : Statement :=
  .select { tableName := "FROM", selectStar := false, columns := ["AND"],
            whereClause := [{ column := "WHERE", op := .eq, literal := .integer (-1) }] }

lemma keywordNames_plain : keywordNames.Plain := by
  refine ⟨isName_keyword (by decide), by decide, ?_, ?_⟩
  · exact forall_mem_singleton.mpr (isName_keyword (by decide))
  · exact forall_mem_singleton.mpr ⟨isName_keyword (by decide), trivial⟩

theorem parser_accepts_grammar_keywordNames :
    parse (nameBytes " SELECT AND FROM FROM WHERE WHERE = -1") = .ok keywordNames := by
  have text : nameBytes " SELECT AND FROM FROM WHERE WHERE = -1" = spaceOut keywordNames.tokens := by
    decide +kernel
  rw [text]
  exact (parser_accepts_grammar.2 keywordNames keywordNames_plain).2 _ _
    (writes_tokens keywordNames_plain) (spaced_spaceOut _)

end DbEngine.Sql
