import DbEngine.Sql.Parser

/-!
# The grammar

The grammar of `sql/parser.h` as relations between tokens and what they stand for.  The
parser accepts exactly this language, although keywords are not reserved: what a token is for
is clear from the tokens before it.
-/

namespace DbEngine.Sql

open Lib

/-- `name` or `col`. -/
inductive Name : List Token → String → Prop where
  | mk (isIdentifier : token.type = .identifier) : Name [token] (toText token.text)

/-- A keyword, in any case. -/
inductive Keyword (keyword : String) : List Token → Prop where
  | mk (spells : isKeyword keyword token = true) : Keyword keyword [token]

/-- A token of a type. -/
inductive Symbol (type : TokenType) : List Token → Prop where
  | mk (isType : token.type = type) : Symbol type [token]

/-- `literal`. -/
inductive Literal : List Token → Value → Prop where
  | integer (isInteger : token.type = .integerLiteral) :
      Literal [token] (.integer token.intValue)
  | text (isString : token.type = .stringLiteral) :
      Literal [token] (.text token.text)

/-- `type`. -/
inductive TypeName : List Token → ColumnType → Prop where
  | integer (keyword : Keyword "INTEGER" tokens) : TypeName tokens .integer
  | text (keyword : Keyword "TEXT" tokens) : TypeName tokens .text

/-- `= | < | <= | > | >=`. -/
inductive Operator : List Token → CompareOp → Prop where
  | eq (symbol : Symbol .eq tokens) : Operator tokens .eq
  | lt (symbol : Symbol .lt tokens) : Operator tokens .lt
  | le (symbol : Symbol .le tokens) : Operator tokens .le
  | gt (symbol : Symbol .gt tokens) : Operator tokens .gt
  | ge (symbol : Symbol .ge tokens) : Operator tokens .ge

/-- `comparison`. -/
inductive ComparisonOf : List Token → Comparison → Prop where
  | mk
      (named : Name name column) (compares : Operator operator op) (against : Literal operand literal) :
      ComparisonOf (name ++ (operator ++ operand)) { column, op, literal }

/-- `col type`. -/
inductive ColumnOf : List Token → ColumnDef → Prop where
  | mk (named : Name column name) (typed : TypeName typeName type) :
      ColumnOf (column ++ typeName) { name, type }

/-- `(WHERE comparison (AND comparison)*)?`. -/
inductive WhereOf : List Token → Predicate → Prop where
  | none : WhereOf [] []
  | some (begins : Keyword "WHERE" keyword)
      (conjunction : Separated ComparisonOf (isKeyword "AND") comparisons predicate) :
      WhereOf (keyword ++ comparisons) predicate

/-- `* | col (, col)*`. -/
inductive SelectionOf : List Token → Bool × List String → Prop where
  | all {star : List Token} (symbol : Symbol .star star) : SelectionOf star (true, [])
  | columns (separated : Separated Name isComma list names) :
      SelectionOf list (false, names)

/-- `TABLE name (col type (, col type)*)`; the first column is the `INTEGER` key. -/
inductive CreateTableOf : List Token → Statement → Prop where
  | mk (isTable : Keyword "TABLE" table) (named : Name name tableName)
      (isOpen : Symbol .lparen opens) (separated : Separated ColumnOf isComma list columns)
      (isClose : Symbol .rparen closes) (keyed : Keyed columns) :
      CreateTableOf (table ++ (name ++ (opens ++ (list ++ closes))))
        (.createTable { tableName, columns, keyed })

/-- `INTO name VALUES (literal (, literal)*)`. -/
inductive InsertOf : List Token → Statement → Prop where
  | mk (isInto : Keyword "INTO" into) (named : Name name tableName)
      (isValues : Keyword "VALUES" values) (isOpen : Symbol .lparen opens)
      (separated : Separated Literal isComma list literals) (isClose : Symbol .rparen closes) :
      InsertOf (into ++ (name ++ (values ++ (opens ++ (list ++ closes)))))
        (.insert { tableName, values := literals })

section

variable (clauseOf : List Token → Predicate → Prop)

/-- `(* | col (, col)*) FROM name` and a clause. -/
inductive SelectOf : List Token → Statement → Prop where
  | mk (selects : SelectionOf selection selected) (isFrom : Keyword "FROM" source)
      (named : Name name tableName) (filters : clauseOf clause predicate) :
      SelectOf (selection ++ (source ++ (name ++ clause)))
        (.select { tableName, selectStar := selected.1, columns := selected.2,
                   whereClause := predicate })

/-- `FROM name` and a clause. -/
inductive DeleteOf : List Token → Statement → Prop where
  | mk (isFrom : Keyword "FROM" source) (named : Name name tableName)
      (filters : clauseOf clause predicate) :
      DeleteOf (source ++ (name ++ clause)) (.delete { tableName, whereClause := predicate })

/-- A statement with some kind of clause, without the `;`. -/
inductive StatementWith : List Token → Statement → Prop where
  | createTable (begins : Keyword "CREATE" create)
      (holds : CreateTableOf body stmt) : StatementWith (create ++ body) stmt
  | insert {insert body : List Token} (begins : Keyword "INSERT" insert)
      (holds : InsertOf body stmt) : StatementWith (insert ++ body) stmt
  | select {select body : List Token} (begins : Keyword "SELECT" select)
      (holds : SelectOf clauseOf body stmt) : StatementWith (select ++ body) stmt
  | delete {delete body : List Token} (begins : Keyword "DELETE" delete)
      (holds : DeleteOf clauseOf body stmt) : StatementWith (delete ++ body) stmt

end

/-- A statement, without the `;`. -/
abbrev StatementOf : List Token → Statement → Prop := StatementWith WhereOf

/-- A token stream with its optional `;` and its end. -/
inductive Derives : List Token → Statement → Prop where
  | plain (derives : StatementOf tokens stmt)
      (isEnd : Symbol .end ends) : Derives (tokens ++ ends) stmt
  | semicolon (derives : StatementOf tokens stmt) (isSemicolon : Symbol .semicolon semicolon)
      (isEnd : Symbol .end ends) : Derives (tokens ++ (semicolon ++ ends)) stmt

/-! ## The parser and the grammar -/

variable {keyword : String} {tokens rest used body : List Token} {α : Type} {type : TokenType}
  {continue' : SqlParser α} {grammar : List Token → List Token → α → Prop} {token last : Token}
  {predicate : Predicate} {stmt : Statement}

lemma keyword_iff :
    Keyword keyword tokens ↔ ∃ token, tokens = [token] ∧ isKeyword keyword token = true := by
  constructor
  · rintro ⟨spells⟩
    exact ⟨_, rfl, spells⟩
  · rintro ⟨token, rfl, spells⟩
    exact .mk spells

lemma parses_expectKeyword (keyword : String) :
    Parses (expectKeyword keyword) fun used _ _ => Keyword keyword used := by
  apply (Parses.take _ _).congr
  intro used rest result
  rw [keyword_iff]
  simp

lemma parses_expectType (type : TokenType) (what : String) :
    Parses (expectType type what) fun used _ text =>
      ∃ token, used = [token] ∧ token.type = type ∧ token.text = text := by
  apply (Parses.take _ _).congr
  intro used rest result
  simp

lemma parses_symbol (continues : Parses continue' grammar) :
    Parses (do let _ ← expectType type what; continue') fun used rest result =>
      ∃ symbol second, used = symbol ++ second ∧ Symbol type symbol ∧ grammar second rest result := by
  apply (Parses.bind (parses_expectType type what) fun _ => continues).congr
  intro used rest result
  constructor
  · rintro ⟨text, _, second, rfl, ⟨token, rfl, isType, -⟩, holds⟩
    exact ⟨[token], second, rfl, .mk isType, holds⟩
  · rintro ⟨_, second, rfl, ⟨isType⟩, holds⟩
    exact ⟨_, _, second, rfl, ⟨_, rfl, isType, rfl⟩, holds⟩

lemma parses_keyword (continues : Parses continue' grammar) :
    Parses (do expectKeyword keyword; continue') fun used rest result =>
      ∃ word second, used = word ++ second ∧ Keyword keyword word ∧ grammar second rest result := by
  apply (Parses.bind (parses_expectKeyword keyword) fun _ => continues).congr
  intro used rest result
  constructor
  · rintro ⟨_, word, second, rfl, spells, holds⟩
    exact ⟨word, second, rfl, spells, holds⟩
  · rintro ⟨word, second, rfl, spells, holds⟩
    exact ⟨(), word, second, rfl, spells, holds⟩

lemma parses_expectIdentifier : Parses expectIdentifier fun used _ name => Name used name := by
  apply (Parses.bind (parses_expectType _ _) fun text => Parses.pure (toText text)).congr
  intro used rest name
  constructor
  · rintro ⟨text, _, _, rfl, ⟨token, rfl, isType, rfl⟩, rfl, rfl⟩
    exact .mk isType
  · rintro ⟨isType⟩
    exact ⟨_, _, [], rfl, ⟨_, rfl, isType, rfl⟩, rfl, rfl⟩

lemma parses_parseLiteral : Parses parseLiteral fun used _ value => Literal used value := by
  apply (Parses.take _ _).congr
  intro used rest value
  constructor
  · rintro ⟨token, rfl, seen⟩
    split at seen
    next isInteger =>
      cases seen
      exact .integer isInteger
    next isString =>
      cases seen
      exact .text isString
    · cases seen
  · intro literal
    cases literal with
    | integer isInteger => exact ⟨_, rfl, by rw [isInteger]⟩
    | text isString => exact ⟨_, rfl, by rw [isString]⟩

lemma isKeyword_unique (spells : isKeyword first token = true)
    (spells' : isKeyword second token = true) : first = second := by
  simp only [isKeyword, Bool.and_eq_true, decide_eq_true_eq] at spells spells'
  exact spells.2.symm.trans spells'.2

lemma parses_parseColumnType : Parses parseColumnType fun used _ type => TypeName used type := by
  apply (Parses.take _ _).congr
  intro used rest type
  constructor
  · rintro ⟨token, rfl, seen⟩
    split at seen
    next spells =>
      cases seen
      exact .integer (.mk spells)
    · split at seen
      next spells =>
        cases seen
        exact .text (.mk spells)
      · cases seen
  · intro typeName
    cases typeName with
    | integer keyword =>
      obtain ⟨spells⟩ := keyword
      exact ⟨_, rfl, if_pos spells⟩
    | text keyword =>
      obtain ⟨spells⟩ := keyword
      refine ⟨_, rfl, (if_neg ?_).trans (if_pos spells)⟩
      intro other
      exact absurd (isKeyword_unique other spells) (by decide)

lemma parses_parseCompareOp : Parses parseCompareOp fun used _ op => Operator used op := by
  apply (Parses.take _ _).congr
  intro used rest op
  constructor
  · rintro ⟨token, rfl, seen⟩
    split at seen
    next isType =>
      cases seen
      exact .eq (.mk isType)
    next isType =>
      cases seen
      exact .lt (.mk isType)
    next isType =>
      cases seen
      exact .le (.mk isType)
    next isType =>
      cases seen
      exact .gt (.mk isType)
    next isType =>
      cases seen
      exact .ge (.mk isType)
    · cases seen
  · intro operator
    cases operator with
    | eq symbol | lt symbol | le symbol | gt symbol | ge symbol =>
      obtain ⟨isType⟩ := symbol
      exact ⟨_, rfl, by rw [isType]⟩

lemma parses_parseComparison :
    Parses parseComparison fun used _ comparison => ComparisonOf used comparison := by
  apply (Parses.bind parses_expectIdentifier fun column =>
    Parses.bind parses_parseCompareOp fun op =>
      Parses.bind parses_parseLiteral fun literal => Parses.pure (Comparison.mk column op literal)).congr
  intro used rest comparison
  constructor
  · rintro ⟨column, name, _, rfl, named, op, operator, _, rfl, compares, literal, operand, _, rfl,
      against, rfl, rfl⟩
    rw [append_nil]
    exact .mk named compares against
  · rintro ⟨named, compares, against⟩
    exact ⟨_, _, _, rfl, named, _, _, _, rfl, compares, _, _, [], (append_nil _).symm, against,
      rfl, rfl⟩

lemma parses_parseColumn : Parses parseColumn fun used _ column => ColumnOf used column := by
  apply (Parses.bind parses_expectIdentifier fun name =>
    Parses.bind parses_parseColumnType fun type => Parses.pure (ColumnDef.mk name type)).congr
  intro used rest column
  constructor
  · rintro ⟨name, _, _, rfl, named, type, _, _, rfl, typed, rfl, rfl⟩
    rw [append_nil]
    exact .mk named typed
  · rintro ⟨named, typed⟩
    exact ⟨_, _, _, rfl, named, _, _, [], (append_nil _).symm, typed, rfl, rfl⟩

/-- A `WHERE` clause in front of what does not continue it. -/
inductive WhereAt (rest : List Token) : List Token → Predicate → Prop where
  | none (stops : Parses.Stops (isKeyword "WHERE") rest) : WhereAt rest [] []
  | some {keyword comparisons : List Token} {predicate : Predicate}
      (begins : Keyword "WHERE" keyword)
      (conjunction : Separated ComparisonOf (isKeyword "AND") comparisons predicate)
      (stops : Parses.Stops (isKeyword "AND") rest) :
      WhereAt rest (keyword ++ comparisons) predicate

lemma parses_parseWhereClause :
    Parses parseWhereClause fun used rest predicate => WhereAt rest used predicate := by
  apply (Parses.branch (Parses.separated parses_parseComparison) (Parses.pure [])).congr
  intro used rest predicate
  constructor
  · rintro (⟨token, second, rfl, spells, conjunction, stops⟩ | ⟨⟨rfl, rfl⟩, stops⟩)
    · exact .some (.mk spells) conjunction stops
    · exact .none stops
  · intro clause
    cases clause with
    | none stops => exact .inr ⟨⟨rfl, rfl⟩, stops⟩
    | some begins conjunction stops =>
      obtain ⟨spells⟩ := begins
      exact .inl ⟨_, _, rfl, spells, conjunction, stops⟩

lemma WhereAt.whereOf (clause : WhereAt rest used predicate) : WhereOf used predicate := by
  cases clause with
  | none => exact .none
  | some begins conjunction => exact .some begins conjunction

/-- What comes next is not an identifier, and so no keyword. -/
def Boundary (rest : List Token) : Prop :=
  ∃ token tail, rest = token :: tail ∧ token.type ≠ .identifier

lemma Boundary.stops (boundary : Boundary rest) (keyword : String) :
    Parses.Stops (isKeyword keyword) rest := by
  obtain ⟨token, tail, rfl, other⟩ := boundary
  exact ⟨token, tail, rfl, by simp [isKeyword, other]⟩

lemma WhereOf.whereAt (clause : WhereOf used predicate) (boundary : Boundary rest) :
    WhereAt rest used predicate := by
  cases clause with
  | none => exact .none (boundary.stops _)
  | some begins conjunction => exact .some begins conjunction (boundary.stops _)

/-- Items begin with an item. -/
lemma starts_of_separated {item : List Token → α → Prop} {test : Token → Prop}
    (starts : ∀ used value, item used value → ∃ token tail, used = token :: tail ∧ test token)
    (separated : Separated item isSeparator used values) :
    ∃ token tail, used = token :: tail ∧ test token := by
  cases separated with
  | last holds => exact starts _ _ holds
  | more holds separates rest =>
    obtain ⟨token, tail, rfl, passes⟩ := starts _ _ holds
    exact ⟨token, _, rfl, passes⟩

lemma parses_parseSelection : Parses parseSelection fun used rest selected =>
      SelectionOf used selected ∧ (selected.1 = false → Parses.Stops isComma rest) := by
  apply (Parses.branch (Parses.pure (true, []))
    (Parses.bind (Parses.separated parses_expectIdentifier) fun columns =>
      Parses.pure (false, columns))).congr
  intro used rest selected
  constructor
  · rintro (⟨token, _, rfl, isStar, rfl, rfl⟩ |
      ⟨⟨columns, list, _, rfl, ⟨separated, stops⟩, rfl, rfl⟩, -⟩)
    · exact ⟨.all (.mk (of_decide_eq_true isStar)), nofun⟩
    · rw [append_nil]
      exact ⟨.columns separated, fun _ => stops⟩
  · rintro ⟨selection, stops⟩
    cases selection with
    | all symbol =>
      obtain ⟨isStar⟩ := symbol
      exact .inl ⟨_, [], rfl, decide_eq_true isStar, rfl, rfl⟩
    | columns separated =>
      have named (used : List Token) (value : String) (name : Name used value) :
          ∃ token tail, used = token :: tail ∧ token.type = .identifier := by
        obtain ⟨isIdentifier⟩ := name
        exact ⟨_, [], rfl, isIdentifier⟩
      obtain ⟨token, tail, rfl, isIdentifier⟩ := starts_of_separated named separated
      refine .inr ⟨⟨_, _, [], (append_nil _).symm, ⟨separated, stops rfl⟩, rfl, rfl⟩, token, _,
        rfl, ?_⟩
      simp [isIdentifier]

lemma parses_checkColumns (tableName : String) (columns : List ColumnDef) :
    Parses (checkColumns tableName columns) fun used _ stmt =>
      used = [] ∧ ∃ keyed, stmt = .createTable { tableName, columns, keyed } := by
  cases columns with
  | nil =>
    apply (Parses.fail _).congr
    intro used rest stmt
    constructor
    · exact False.elim
    · rintro ⟨-, keyed, -⟩
      cases keyed
  | cons first others =>
    rw [checkColumns]
    split
    next keyed =>
      apply (Parses.pure _).congr
      intro used rest stmt
      exact and_congr_right fun _ => ⟨fun same => ⟨keyed, same⟩, fun ⟨_, same⟩ => same⟩
    next notKeyed =>
      apply (Parses.fail _).congr
      intro used rest stmt
      exact ⟨False.elim, fun ⟨_, keyed, _⟩ => notKeyed keyed⟩

/-- What begins with another token is no comma. -/
lemma stops_symbol {symbol : List Token} (isSymbol : Symbol type symbol) (other : type ≠ .comma)
    : Parses.Stops isComma (symbol ++ rest) := by
  obtain ⟨isType⟩ := isSymbol
  exact ⟨_, rest, rfl, by simp [isComma, isType, other]⟩

lemma stops_keyword {word : List Token} (spells : Keyword keyword word) :
    Parses.Stops isComma (word ++ rest) := by
  obtain ⟨spells⟩ := spells
  simp only [isKeyword, Bool.and_eq_true, decide_eq_true_eq] at spells
  exact ⟨_, rest, rfl, by simp [isComma, spells.1]⟩

lemma parses_parseCreateTable :
    Parses parseCreateTable fun used _ stmt => CreateTableOf used stmt := by
  apply (parses_keyword (Parses.bind parses_expectIdentifier fun tableName => parses_symbol
    (Parses.bind (Parses.separated parses_parseColumn) fun columns => parses_symbol
      (parses_checkColumns tableName columns)))).congr
  intro used rest stmt
  constructor
  · rintro ⟨table, _, rfl, isTable, tableName, name, _, rfl, named, opens, _, rfl, isOpen, columns,
      list, _, rfl, ⟨separated, -⟩, closes, _, rfl, isClose, rfl, keyed, rfl⟩
    rw [append_nil]
    exact .mk isTable named isOpen separated isClose keyed
  · rintro ⟨isTable, named, isOpen, separated, isClose, keyed⟩
    exact ⟨_, _, rfl, isTable, _, _, _, rfl, named, _, _, rfl, isOpen, _, _, _, rfl,
      ⟨separated, stops_symbol isClose (by decide)⟩, _, [], (append_nil _).symm, isClose, rfl,
      keyed, rfl⟩

lemma parses_parseInsert : Parses parseInsert fun used _ stmt => InsertOf used stmt := by
  apply (parses_keyword (Parses.bind parses_expectIdentifier fun tableName => parses_keyword
    (parses_symbol (Parses.bind (Parses.separated parses_parseLiteral) fun values => parses_symbol
      (Parses.pure (Statement.insert { tableName, values })))))).congr
  intro used rest stmt
  constructor
  · rintro ⟨into, _, rfl, isInto, tableName, name, _, rfl, named, values, _, rfl, isValues, opens, _,
      rfl, isOpen, literals, list, _, rfl, ⟨separated, -⟩, closes, _, rfl, isClose, rfl, rfl⟩
    rw [append_nil]
    exact .mk isInto named isValues isOpen separated isClose
  · rintro ⟨isInto, named, isValues, isOpen, separated, isClose⟩
    exact ⟨_, _, rfl, isInto, _, _, _, rfl, named, _, _, rfl, isValues, _, _, rfl, isOpen, _, _, _,
      rfl, ⟨separated, stops_symbol isClose (by decide)⟩, _, [], (append_nil _).symm, isClose,
      rfl, rfl⟩

lemma parses_parseSelect :
    Parses parseSelect fun used rest stmt => SelectOf (WhereAt rest) used stmt := by
  apply (Parses.bind parses_parseSelection fun selection => parses_keyword
    (Parses.bind parses_expectIdentifier fun tableName =>
      Parses.bind parses_parseWhereClause fun whereClause => Parses.pure (Statement.select
        { tableName, selectStar := selection.1, columns := selection.2, whereClause }))).congr
  intro used rest stmt
  constructor
  · rintro ⟨selected, selection, _, rfl, ⟨selects, -⟩, source, _, rfl, isFrom, tableName, name, _,
      rfl, named, predicate, clause, _, rfl, filters, rfl, rfl⟩
    rw [append_nil]
    exact .mk selects isFrom named filters
  · rintro ⟨selects, isFrom, named, filters⟩
    refine ⟨_, _, _, rfl, ⟨selects, fun _ => ?_⟩, _, _, rfl, isFrom, _, _, _, rfl, named, _, _, [],
      (append_nil _).symm, filters, rfl, rfl⟩
    rw [append_assoc]
    exact stops_keyword isFrom

lemma parses_parseDelete :
    Parses parseDelete fun used rest stmt => DeleteOf (WhereAt rest) used stmt := by
  apply (parses_keyword (Parses.bind parses_expectIdentifier fun tableName =>
    Parses.bind parses_parseWhereClause fun whereClause =>
      Parses.pure (Statement.delete { tableName, whereClause }))).congr
  intro used rest stmt
  constructor
  · rintro ⟨source, _, rfl, isFrom, tableName, name, _, rfl, named, predicate, clause, _, rfl,
      filters, rfl, rfl⟩
    rw [append_nil]
    exact .mk isFrom named filters
  · rintro ⟨isFrom, named, filters⟩
    exact ⟨_, _, rfl, isFrom, _, _, _, rfl, named, _, _, [], (append_nil _).symm, filters, rfl, rfl⟩

lemma isKeyword_other (spells : isKeyword keyword token = true) (differs : keyword ≠ other) :
    isKeyword other token = false := by
  rw [Bool.eq_false_iff]
  exact fun spells' => differs (isKeyword_unique spells spells')

lemma parses_parseStatement :
    Parses parseStatement fun used rest stmt => StatementWith (WhereAt rest) used stmt := by
  apply (Parses.branch parses_parseCreateTable (Parses.branch parses_parseInsert
    (Parses.branch parses_parseSelect (Parses.branch parses_parseDelete
      (Parses.take _ _))))).congr
  intro used rest stmt
  constructor
  · rintro (⟨token, body, rfl, spells, holds⟩ | ⟨⟨token, body, rfl, spells, holds⟩ |
      ⟨⟨token, body, rfl, spells, holds⟩ | ⟨⟨token, body, rfl, spells, holds⟩ |
        ⟨⟨_, -, none⟩, -⟩, -⟩, -⟩, -⟩)
    · exact .createTable (.mk spells) holds
    · exact .insert (.mk spells) holds
    · exact .select (.mk spells) holds
    · exact .delete (.mk spells) holds
    · cases none
  · intro statement
    cases statement with
    | createTable begins holds =>
      obtain ⟨spells⟩ := begins
      exact .inl ⟨_, _, rfl, spells, holds⟩
    | insert begins holds =>
      obtain ⟨spells⟩ := begins
      exact .inr ⟨.inl ⟨_, _, rfl, spells, holds⟩, _, _, rfl, isKeyword_other spells (by decide)⟩
    | select begins holds =>
      obtain ⟨spells⟩ := begins
      exact .inr ⟨.inr ⟨.inl ⟨_, _, rfl, spells, holds⟩, _, _, rfl,
        isKeyword_other spells (by decide)⟩, _, _, rfl, isKeyword_other spells (by decide)⟩
    | delete begins holds =>
      obtain ⟨spells⟩ := begins
      exact .inr ⟨.inr ⟨.inr ⟨.inl ⟨_, _, rfl, spells, holds⟩, _, _, rfl,
        isKeyword_other spells (by decide)⟩, _, _, rfl, isKeyword_other spells (by decide)⟩, _, _,
        rfl, isKeyword_other spells (by decide)⟩

lemma StatementWith.mono {clauseOf clauseOf' : List Token → Predicate → Prop}
    (implies : ∀ clause predicate, clauseOf clause predicate → clauseOf' clause predicate)
    (statement : StatementWith clauseOf used stmt) : StatementWith clauseOf' used stmt := by
  cases statement with
  | createTable begins holds => exact .createTable begins holds
  | insert begins holds => exact .insert begins holds
  | select begins holds =>
    obtain ⟨selects, isFrom, named, filters⟩ := holds
    exact .select begins (.mk selects isFrom named (implies _ _ filters))
  | delete begins holds =>
    obtain ⟨isFrom, named, filters⟩ := holds
    exact .delete begins (.mk isFrom named (implies _ _ filters))

/-! ## The whole stream -/

/-- The token is the end of the stream. -/
def isEnd (token : Token) : Bool := token.type = .end

lemma parses_expectEndOfStatement : Parses expectEndOfStatement fun used rest _ =>
      (used = [] ∨ Symbol .semicolon used) ∧
        ∃ token tail, rest = token :: tail ∧ isEnd token = true := by
  have check (token : Token) : Parses
      (if token.type = .end then return () else TokenParser.fail (.sqlException
        ("unexpected trailing input near '" ++ toText token.text ++ "'")) : SqlParser Unit)
      fun used _ _ => used = [] ∧ isEnd token = true := by
    split
    next isType =>
      apply (Parses.pure ()).congr
      simp [isEnd, isType]
    next other =>
      apply (Parses.fail _).congr
      simp [isEnd, other]
  apply (Parses.bind (Parses.accept _) fun _ => Parses.bind Parses.peek check).congr
  intro used rest result
  constructor
  · rintro ⟨accepted, first, _, rfl, holds, token, _, _, rfl, ⟨rfl, tail, next⟩, rfl, ends⟩
    rw [nil_append] at next
    subst next
    refine ⟨?_, token, tail, rfl, ends⟩
    rw [append_nil, append_nil]
    cases accepted with
    | true =>
      obtain ⟨semicolon, rfl, isType⟩ := holds
      exact .inr (.mk (of_decide_eq_true isType))
    | false => exact .inl holds.1
  · rintro ⟨rfl | isSemicolon, token, tail, rfl, ends⟩
    · refine ⟨false, [], [], rfl, ⟨rfl, token, tail, rfl, ?_⟩, token, [], [], rfl, ⟨rfl, tail, rfl⟩,
        rfl, ends⟩
      rw [isEnd, decide_eq_true_eq] at ends
      simp [ends]
    · obtain ⟨isType⟩ := isSemicolon
      exact ⟨true, [_], [], rfl, ⟨_, rfl, decide_eq_true isType⟩, token, [], [], rfl,
        ⟨rfl, tail, rfl⟩, rfl, ends⟩

/-- An end token in a stream that ends with its only one is the last token. -/
lemma tail_eq_nil (single : ∀ token ∈ body, isEnd token = false)
    (split : body ++ [last] = before ++ token :: tail) (ends : isEnd token = true) : tail = [] := by
  rcases eq_nil_or_concat tail with none | ⟨front, final, rfl⟩
  · exact none
  · exfalso
    rw [concat_eq_append, ← cons_append, ← append_assoc] at split
    have same := (append_inj' split rfl).1
    have mem : token ∈ body := by simp [same]
    rw [single token mem] at ends
    cases ends

lemma parses_parseWhole : Parses parseWhole fun used rest stmt =>
      ∃ first second, used = first ++ second ∧ StatementWith (WhereAt (second ++ rest)) first stmt ∧
        (second = [] ∨ Symbol .semicolon second) ∧
          ∃ token tail, rest = token :: tail ∧ isEnd token = true := by
  apply (Parses.bind parses_parseStatement fun stmt =>
    Parses.bind parses_expectEndOfStatement fun _ => Parses.pure stmt).congr
  intro used rest stmt
  constructor
  · rintro ⟨_, first, _, rfl, statement, _, second, _, rfl, ⟨optional, ends⟩, rfl, rfl⟩
    rw [append_nil] at statement ⊢
    exact ⟨first, second, rfl, statement, optional, ends⟩
  · rintro ⟨first, second, rfl, statement, optional, ends⟩
    exact ⟨stmt, first, second, rfl, statement, (), second, [], (append_nil _).symm,
      ⟨optional, ends⟩, rfl, rfl⟩

/-- Behind a statement comes no identifier. -/
lemma boundary_end (optional : second = [] ∨ Symbol .semicolon second)
    (ends : ∃ token tail, rest = token :: tail ∧ isEnd token = true) :
    Boundary (second ++ rest) := by
  obtain ⟨token, tail, rfl, isType⟩ := ends
  rw [isEnd, decide_eq_true_eq] at isType
  rcases optional with rfl | isSemicolon
  · exact ⟨token, tail, rfl, by simp [isType]⟩
  · obtain ⟨isSemicolon⟩ := isSemicolon
    exact ⟨_, _, rfl, by simp [isSemicolon]⟩

lemma derives_iff :
    Derives tokens stmt ↔ ∃ first second last, tokens = first ++ (second ++ [last]) ∧
      StatementOf first stmt ∧ (second = [] ∨ Symbol .semicolon second) ∧ isEnd last = true := by
  constructor
  · intro derives
    cases derives with
    | plain derives ends =>
      obtain ⟨isType⟩ := ends
      exact ⟨_, [], _, rfl, derives, .inl rfl, decide_eq_true isType⟩
    | semicolon derives isSemicolon ends =>
      obtain ⟨isType⟩ := ends
      exact ⟨_, _, _, rfl, derives, .inr isSemicolon, decide_eq_true isType⟩
  · rintro ⟨first, second, last, rfl, derives, rfl | isSemicolon, ends⟩
    · exact .plain derives (.mk (of_decide_eq_true ends))
    · exact .semicolon derives isSemicolon (.mk (of_decide_eq_true ends))

/-- The parser accepts exactly the streams of the grammar. -/
lemma parseTokens_iff (single : ∀ token ∈ body, isEnd token = false) :
    parseTokens (body ++ [last]) = .ok stmt ↔ Derives (body ++ [last]) stmt := by
  have ran : parseTokens (body ++ [last]) = .ok stmt ↔
      ∃ rest, parseWhole (body ++ [last]) = .ok (stmt, rest) := by
    rw [parseTokens]
    cases parseWhole (body ++ [last]) with
    | error failure => exact ⟨nofun, nofun⟩
    | ok next =>
      obtain ⟨found, rest⟩ := next
      simp [Except.map]
  rw [ran, derives_iff]
  constructor
  · rintro ⟨rest, parsed⟩
    obtain ⟨_, split, first, second, rfl, statement, optional, token, tail, rfl, ends⟩ :=
      (parses_parseWhole _ _ _).mp parsed
    have none := tail_eq_nil single split ends
    subst none
    exact ⟨first, second, token, by rw [split, append_assoc],
      statement.mono fun _ _ clause => clause.whereOf, optional, ends⟩
  · rintro ⟨first, second, token, split, statement, optional, ends⟩
    have final : ∃ other tail, [token] = other :: tail ∧ isEnd other = true := ⟨token, [], rfl, ends⟩
    refine ⟨[token], (parses_parseWhole _ _ _).mpr ⟨first ++ second, by rw [split, append_assoc],
      first, second, rfl, ?_, optional, final⟩⟩
    exact statement.mono fun _ _ clause => clause.whereAt (boundary_end optional final)

/-! ## Not past the end -/

lemma isEnd_eq_false (isType : token.type = type) (other : type ≠ .end) : isEnd token = false := by
  rw [isEnd, isType]
  exact decide_eq_false other

lemma isEnd_of_isKeyword (token : Token) (spells : isKeyword keyword token = true) :
    isEnd token = false := by
  simp only [isKeyword, Bool.and_eq_true, decide_eq_true_eq] at spells
  exact isEnd_eq_false spells.1 (by decide)

lemma isEnd_of_isComma (token : Token) (comma : isComma token = true) : isEnd token = false :=
  isEnd_eq_false (of_decide_eq_true comma) (by decide)

/-- A test that the end token does not pass. -/
lemma guarded_take {view : Token → Option α} {error : Token → SyntaxFailure}
    (blind : ∀ token, token.type = .end → view token = none) :
    Guarded isEnd (TokenParser.take view error) := by
  apply Guarded.take
  intro token value seen
  by_contra ends
  rw [blind token (by simpa [isEnd] using ends)] at seen
  cases seen

lemma guarded_expectKeyword (keyword : String) : Guarded isEnd (expectKeyword keyword) :=
  guarded_take fun token ends => by simp [isKeyword, ends]

lemma guarded_expectType (other : type ≠ .end) (what : String) :
    Guarded isEnd (expectType type what) :=
  guarded_take fun token ends => by simp [ends, other.symm]

lemma guarded_expectIdentifier : Guarded isEnd expectIdentifier :=
  (guarded_expectType (by decide) _).bind fun _ => Guarded.pure _

lemma guarded_parseColumnType : Guarded isEnd parseColumnType :=
  guarded_take fun token ends => by simp [isKeyword, ends]

lemma guarded_parseLiteral : Guarded isEnd parseLiteral :=
  guarded_take fun token ends => by simp [ends]

lemma guarded_parseCompareOp : Guarded isEnd parseCompareOp :=
  guarded_take fun token ends => by simp [ends]

lemma guarded_parseComparison : Guarded isEnd parseComparison :=
  guarded_expectIdentifier.bind fun _ => guarded_parseCompareOp.bind fun _ =>
    guarded_parseLiteral.bind fun _ => Guarded.pure _

lemma guarded_parseColumn : Guarded isEnd parseColumn :=
  guarded_expectIdentifier.bind fun _ => guarded_parseColumnType.bind fun _ => Guarded.pure _

lemma guarded_parseWhereClause : Guarded isEnd parseWhereClause := by
  apply Guarded.branch isEnd_of_isKeyword
  · exact Guarded.separated parses_parseComparison guarded_parseComparison isEnd_of_isKeyword
  · exact Guarded.pure _

lemma guarded_checkColumns (tableName : String) (columns : List ColumnDef) :
    Guarded isEnd (checkColumns tableName columns) := by
  cases columns with
  | nil => exact Guarded.fail _
  | cons first others =>
    rw [checkColumns]
    split
    · exact Guarded.pure _
    · exact Guarded.fail _

lemma guarded_parseCreateTable : Guarded isEnd parseCreateTable := by
  apply (guarded_expectKeyword _).bind
  intro _
  apply guarded_expectIdentifier.bind
  intro tableName
  apply (guarded_expectType (by decide) _).bind
  intro _
  apply (Guarded.separated parses_parseColumn guarded_parseColumn isEnd_of_isComma).bind
  intro columns
  apply (guarded_expectType (by decide) _).bind
  intro _
  exact guarded_checkColumns tableName columns

lemma guarded_parseInsert : Guarded isEnd parseInsert := by
  apply (guarded_expectKeyword _).bind
  intro _
  apply guarded_expectIdentifier.bind
  intro tableName
  apply (guarded_expectKeyword _).bind
  intro _
  apply (guarded_expectType (by decide) _).bind
  intro _
  apply (Guarded.separated parses_parseLiteral guarded_parseLiteral isEnd_of_isComma).bind
  intro values
  apply (guarded_expectType (by decide) _).bind
  intro _
  exact Guarded.pure _

lemma guarded_parseSelection : Guarded isEnd parseSelection := by
  apply Guarded.branch
  · intro token isStar
    exact isEnd_eq_false (of_decide_eq_true isStar) (by decide)
  · exact Guarded.pure _
  · apply (Guarded.separated parses_expectIdentifier guarded_expectIdentifier isEnd_of_isComma).bind
    intro columns
    exact Guarded.pure _

lemma guarded_fromClause (build : String → Predicate → Statement) : Guarded isEnd (do
      expectKeyword "FROM"
      let tableName ← expectIdentifier
      let whereClause ← parseWhereClause
      return build tableName whereClause) :=
  (guarded_expectKeyword _).bind fun _ => guarded_expectIdentifier.bind fun _ =>
    guarded_parseWhereClause.bind fun _ => Guarded.pure _

lemma guarded_parseStatement : Guarded isEnd parseStatement := by
  apply Guarded.branch isEnd_of_isKeyword guarded_parseCreateTable
  apply Guarded.branch isEnd_of_isKeyword guarded_parseInsert
  apply Guarded.branch isEnd_of_isKeyword
  · apply guarded_parseSelection.bind
    intro selection
    exact guarded_fromClause fun tableName whereClause =>
      .select ⟨tableName, selection.1, selection.2, whereClause⟩
  apply Guarded.branch isEnd_of_isKeyword
  · exact guarded_fromClause fun tableName whereClause => .delete ⟨tableName, whereClause⟩
  · exact Guarded.take nofun

/-- The parser never looks behind the end token. -/
lemma parseTokens_ne_pastEnd (ahead : Ahead isEnd tokens) :
    parseTokens tokens ≠ .error .pastEnd := by
  have guarded : Guarded isEnd parseWhole := by
    apply guarded_parseStatement.bind
    intro stmt
    have expectEnd : Guarded isEnd expectEndOfStatement := by
      apply (Guarded.accept _).bind
      · intro _
        apply Guarded.peek.bind
        intro token
        split
        · exact Guarded.pure _
        · exact Guarded.fail _
      · intro token isSemicolon
        exact isEnd_eq_false (of_decide_eq_true isSemicolon) (by decide)
    exact expectEnd.bind fun _ => Guarded.pure _
  have inside := (guarded tokens ahead).1
  rw [parseTokens]
  cases ran : parseWhole tokens with
  | ok next => exact nofun
  | error failure =>
    rw [ran] at inside
    intro same
    cases same
    exact inside rfl

end DbEngine.Sql
