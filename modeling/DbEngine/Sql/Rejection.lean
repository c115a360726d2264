import DbEngine.Sql.RoundTrip

/-!
# Rejected statements

What `Parser::Parse` throws.  Each round of the lexer takes a character and the parser never
looks behind the end token, so both come to an end, and what is wrong is reported as a
`SqlException`.  The one exception is an integer literal outside the range of `int64_t`, which
leaves `std::stoll` as a `std::out_of_range`.
-/

namespace DbEngine.Sql

open Lib TokenParser

/-! ## The lexer -/

/-- The number is one of `int64_t`. -/
def FitsInt64 (number : Int) : Prop := -2 ^ 63 ≤ number ∧ number < 2 ^ 63

instance (number : Int) : Decidable (FitsInt64 number) := inferInstanceAs (Decidable (_ ∧ _))

/-- What a text is in the middle of. -/
inductive Reading where
  | between
  /-- A minus sign, which only a digit may follow. -/
  | minus
  | numeral (text : Bytes)
  | name
  | string
  deriving DecidableEq

namespace Reading

/-- What a character begins, if a token may begin with it. -/
def begin (c : UInt8) : Option Reading :=
  if c = quote then some .string
  else if isDigit c then some (.numeral [c])
  else if c = '-'.toUInt8 then some .minus
  else if startsIdentifier c then some .name
  else if isSpace c ∨ c ∈ symbols then some .between
  else none

/-- What a text is in the middle of, a character further on. -/
def next (c : UInt8) : Reading → Option Reading
  | between => begin c
  | minus => if isDigit c then some (.numeral ['-'.toUInt8, c]) else none
  | numeral text => if isDigit c then some (.numeral (text ++ [c])) else begin c
  | name => if continuesIdentifier c then some .name else begin c
  | string => some (if c = quote then .between else .string)

/-- The numeral that ends where no digit follows. -/
def ended : Reading → List Bytes
  | numeral text => [text]
  | _ => []

end Reading

/-- The numerals in a text: runs of digits, with the minus sign before them, that are not inside
of names or strings.  They are counted up to where the text has a character that begins
nothing. -/
def numerals : Reading → Bytes → List Bytes
  | reading, [] => reading.ended
  | reading, c :: rest =>
    (if isDigit c then [] else reading.ended) ++
      (reading.next c).elim [] fun reading => numerals reading rest

lemma numerals_between (c : UInt8) (rest : Bytes) : numerals .between (c :: rest) =
    (Reading.begin c).elim [] fun reading => numerals reading rest := by
  simp [numerals, Reading.ended, Reading.next]

lemma numerals_numeral (text rest : Bytes) : numerals (.numeral text) rest =
    (text ++ rest.takeWhile isDigit) :: numerals .between (rest.dropWhile isDigit) := by
  induction rest generalizing text with
  | nil => simp [numerals, Reading.ended]
  | cons c rest ih =>
    cases digit : isDigit c with
    | true => simp [numerals, Reading.next, digit, ih]
    | false => simp [numerals, Reading.next, Reading.ended, digit]

lemma numerals_name (rest : Bytes) :
    numerals .name rest = numerals .between (rest.dropWhile continuesIdentifier) := by
  induction rest with
  | nil => rfl
  | cons c rest ih =>
    cases goesOn : continuesIdentifier c with
    | true => simp [numerals, Reading.next, Reading.ended, goesOn, ih]
    | false => simp [numerals, Reading.next, Reading.ended, goesOn]

lemma numerals_string (rest : Bytes) :
    numerals .string rest = numerals .between (rest.dropWhile (· ≠ quote)).tail := by
  induction rest with
  | nil => rfl
  | cons c rest ih =>
    by_cases ends : c = quote
    · simp [numerals, Reading.next, Reading.ended, ends]
    · simp [numerals, Reading.next, Reading.ended, ends, ih]

lemma numerals_minus (rest : Bytes) : numerals .minus rest =
    if rest.head?.any isDigit then numerals (.numeral ['-'.toUInt8]) rest else [] := by
  cases rest with
  | nil => rfl
  | cons c rest => cases digit : isDigit c <;> simp [numerals, Reading.next, Reading.ended, digit]

lemma begin_of_isSpace : ∀ c, isSpace c = true → Reading.begin c = some .between :=
  forall_byte (by decide +kernel)

/-- Every numeral is one of `int64_t`. -/
def NumeralsFit (text : Bytes) : Prop :=
  ∀ numeral ∈ numerals .between text, FitsInt64 (literalValue numeral)

/-- A token before the end, with the value of its digits if it is an integer literal. -/
def Token.Right (token : Token) : Prop :=
  isEnd token = false ∧
    (token.type = .integerLiteral → token.intValue.toInt = literalValue token.text)

/-- One round: it throws, for a numeral out of range or for something else, or it takes a
token. -/
lemma nextToken_cases (position : Nat) (c : UInt8) (rest : Bytes) (word : isSpace c = false) :
    (∃ message, nextToken position c rest = .error (.sqlException message) ∧
      numerals .between (c :: rest) = []) ∨
    (nextToken position c rest = .error .outOfRange ∧
      ∃ numeral ∈ numerals .between (c :: rest), ¬ FitsInt64 (literalValue numeral)) ∨
    ∃ token left, nextToken position c rest = .ok (token, left) ∧ left.length ≤ rest.length ∧
      token.Right ∧ (NumeralsFit (c :: rest) ↔ NumeralsFit left) := by
  by_cases symbol : c ∈ symbols
  · simp only [symbols, mem_cons, not_mem_nil, or_false] at symbol
    rcases symbol with rfl | rfl | rfl | rfl | rfl | rfl | rfl | rfl | rfl
    iterate 6 exact .inr (.inr ⟨_, _, rfl, le_rfl, ⟨rfl, by rintro ⟨⟩⟩, .rfl⟩)
    iterate 2
      by_cases equals : rest.head? = some '='.toUInt8
      · obtain ⟨tail, rfl⟩ := List.head?_eq_some_iff.mp equals
        exact .inr (.inr ⟨_, tail, rfl, by simp, ⟨rfl, by rintro ⟨⟩⟩, .rfl⟩)
      · exact .inr (.inr ⟨_, rest, if_neg equals, le_rfl, ⟨rfl, by rintro ⟨⟩⟩, .rfl⟩)
    have listed : numerals .between (quote :: rest) =
        numerals .between (rest.dropWhile (· ≠ quote)).tail :=
      (numerals_between ..).trans (numerals_string rest)
    cases found : rest.dropWhile (· ≠ quote) with
    | nil =>
      rw [found] at listed
      exact .inl ⟨_, by simp only [nextToken, found]; rfl, listed⟩
    | cons _ after =>
      have shorter := (List.dropWhile_sublist (l := rest) (· ≠ quote)).length_le
      rw [found] at shorter listed
      exact .inr (.inr ⟨⟨.stringLiteral, rest.takeWhile (· ≠ quote), 0⟩, after,
        by simp only [nextToken, found]; rfl, Nat.le_of_succ_le shorter, ⟨rfl, by rintro ⟨⟩⟩,
        by rw [NumeralsFit, listed]; rfl⟩)
  · have noQuote : c ≠ quote := fun same => symbol (same ▸ by decide)
    rw [nextToken_of_not_symbol symbol]
    by_cases begins : isDigit c || (c = '-'.toUInt8 && rest.head?.any isDigit)
    · have listed : numerals .between (c :: rest) = (c :: rest.takeWhile isDigit) ::
          numerals .between (rest.dropWhile isDigit) := by
        rw [numerals_between, Reading.begin, if_neg noQuote]
        cases digit : isDigit c with
        | true => exact numerals_numeral [c] rest
        | false =>
          rw [digit, Bool.false_or, Bool.and_eq_true, decide_eq_true_eq] at begins
          rw [if_neg Bool.false_ne_true, if_pos begins.1, Option.elim_some, numerals_minus,
            if_pos begins.2, numerals_numeral, begins.1]
          rfl
      rw [if_pos begins, stoll]
      by_cases inside : FitsInt64 (literalValue (c :: rest.takeWhile isDigit))
      · refine .inr (.inr ⟨⟨.integerLiteral, c :: rest.takeWhile isDigit,
          .ofInt (literalValue (c :: rest.takeWhile isDigit))⟩, rest.dropWhile isDigit, ?_,
          (List.dropWhile_sublist _).length_le, ⟨rfl, ?_⟩, ?_⟩)
        · rw [if_pos (show _ ∧ _ from inside)]
          rfl
        · exact fun _ => Int64.toInt_ofInt_of_le inside.1 inside.2
        · rw [NumeralsFit, listed, forall_mem_cons]
          exact and_iff_right inside
      · rw [if_neg (show ¬ (_ ∧ _) from inside), listed]
        exact .inr (.inl ⟨rfl, _, mem_cons_self, inside⟩)
    · rw [if_neg begins]
      simp only [Bool.or_eq_true, Bool.and_eq_true, decide_eq_true_eq, not_or, not_and] at begins
      have listed : numerals .between (c :: rest) = if startsIdentifier c then
          numerals .between (rest.dropWhile continuesIdentifier) else [] := by
        rw [numerals_between, Reading.begin, if_neg noQuote, if_neg begins.1]
        split
        next minus =>
          have other : startsIdentifier c = false := minus ▸ by decide
          rw [Option.elim_some, numerals_minus, if_neg (begins.2 minus), other, if_neg
            Bool.false_ne_true]
        next =>
          split
          · exact numerals_name rest
          · rw [if_neg (by simp [word, symbol])]
            rfl
      split at listed
      next starts =>
        exact .inr (.inr ⟨_, _, if_pos starts, (List.dropWhile_sublist _).length_le,
          ⟨rfl, by rintro ⟨⟩⟩, by rw [NumeralsFit, listed]; rfl⟩)
      next other => exact .inl ⟨_, if_neg other, listed⟩

/-- How the lexer ends on a text whose numerals fit, or do not. -/
def Lexed (fit : Prop) : Except SyntaxFailure (List Token) → Prop
  | .error (.sqlException _) => fit
  | .error .outOfRange => ¬ fit
  | .ok tokens => fit ∧ ∃ body, tokens = body ++ [endToken] ∧ ∀ token ∈ body, token.Right

/-- However many rounds the loop is given beyond the length of the text, it ends in the same
way. -/
lemma tokenizeLoop_cases {text : Bytes} (enough : text.length ≤ rounds) :
    ∃ outcome, (∀ more, tokenizeLoop size (rounds + more) text = outcome) ∧
      Lexed (NumeralsFit text) outcome := by
  have nil (rounds : Nat) : ∃ outcome, (∀ more, tokenizeLoop size (rounds + more) [] = outcome) ∧
      Lexed (NumeralsFit []) outcome :=
    ⟨_, fun _ => tokenizeLoop_nil _ _, by rintro _ ⟨⟩, [], rfl, by rintro _ ⟨⟩⟩
  induction rounds generalizing text with
  | zero =>
    rw [length_eq_zero_iff.mp (Nat.le_zero.mp enough)]
    exact nil 0
  | succ rounds ih =>
    cases text with
    | nil => exact nil _
    | cons c rest =>
      have short : rest.length ≤ rounds := Nat.le_of_succ_le_succ enough
      simp only [Nat.succ_add, tokenizeLoop]
      cases space : isSpace c with
      | true =>
        have same : numerals .between (c :: rest) = numerals .between rest := by
          rw [numerals_between, begin_of_isSpace c space]
          rfl
        rw [NumeralsFit, same]
        exact ih short
      | false =>
        simp only [Bool.false_eq_true, if_false]
        rcases nextToken_cases (size - (c :: rest).length) c rest space with
          ⟨message, failed, none⟩ | ⟨failed, numeral, mem, outside⟩ |
          ⟨token, left, ran, fewer, right, same⟩
        · refine ⟨_, fun _ => by rw [failed]; rfl, ?_⟩
          rw [Lexed, NumeralsFit, none]
          rintro _ ⟨⟩
        · exact ⟨.error .outOfRange, fun _ => by rw [failed]; rfl,
            fun fit => outside (fit numeral mem)⟩
        · rw [same]
          obtain ⟨outcome, lexed, ends⟩ := ih (fewer.trans short)
          refine ⟨outcome.map (token :: ·), fun more => ?_, ?_⟩
          · simp only [ran, lexed more, bind, Except.bind]
            cases outcome <;> rfl
          · rcases outcome with (_ | _) | _
            · exact ends
            · exact ends
            · obtain ⟨fit, body, is, rights⟩ := ends
              exact ⟨fit, token :: body, congrArg _ is, forall_mem_cons.mpr ⟨right, rights⟩⟩

/-! ## The parser -/

/-- A parser that gives up throws a `SqlException`. -/
class Reports {α : Type} (parser : SqlParser α) : Prop where
  reported : ∀ tokens failure, parser tokens = .error (.failed failure) →
    ∃ message, failure = .sqlException message

section

variable {α β : Type} {parser other : SqlParser α}

instance {next : α → SqlParser β} [first : Reports parser] [later : ∀ value, Reports (next value)] :
    Reports (parser >>= next) := by
  refine ⟨fun tokens failure failed => ?_⟩
  rw [bind_apply] at failed
  cases ran : parser tokens with
  | error error =>
    rw [ran] at failed
    cases failed
    exact first.reported tokens failure ran
  | ok result =>
    rw [ran] at failed
    exact (later _).reported _ _ failed

instance (value : α) : Reports (pure value) := ⟨by rintro _ _ ⟨⟩⟩

instance (message : String) : Reports (fail (.sqlException message) : SqlParser α) :=
  ⟨by rintro _ _ ⟨⟩; exact ⟨_, rfl⟩⟩

instance : Reports peek := ⟨by rintro (_ | _) _ ⟨⟩⟩

instance : Reports advance := ⟨by rintro (_ | _) _ ⟨⟩⟩

instance {test : Prop} [Decidable test] [Reports parser] [Reports other] :
    Reports (if test then parser else other) := by
  split <;> infer_instance

instance (test : Token → Bool) : Reports (accept test) := by
  unfold accept
  infer_instance

instance (test : Token → Option α) (what : String) : Reports (take test (expected what)) := by
  have each (token : Token) : Reports (match test token with
      | some value => do let _ ← advance; return value
      | none => fail (expected what token) : SqlParser α) := by
    split
    · infer_instance
    · exact inferInstanceAs (Reports (fail (.sqlException _)))
  unfold take
  infer_instance

instance [item : Reports parser] (isSeparator : Token → Bool) :
    Reports (separated parser isSeparator) := by
  have loop (rounds : Nat) : Reports (separatedLoop parser isSeparator rounds) := by
    induction rounds with
    | zero => exact ⟨by rintro _ _ ⟨⟩⟩
    | succ rounds ih =>
      unfold separatedLoop
      infer_instance
  exact ⟨fun tokens => (loop tokens.length).reported tokens⟩

end

instance : Reports expectIdentifier := by
  unfold expectIdentifier expectType
  infer_instance

instance : Reports parseComparison := by
  unfold parseComparison parseCompareOp parseLiteral
  infer_instance

instance : Reports parseWhereClause := by
  unfold parseWhereClause
  infer_instance

instance : Reports parseColumn := by
  unfold parseColumn parseColumnType
  infer_instance

instance (tableName : String) (columns : List ColumnDef) :
    Reports (checkColumns tableName columns) := by
  unfold checkColumns
  split
  · infer_instance
  · split <;> infer_instance

instance : Reports parseCreateTable := by
  unfold parseCreateTable expectKeyword expectType
  infer_instance

instance : Reports parseInsert := by
  unfold parseInsert parseLiteral expectKeyword expectType
  infer_instance

instance : Reports parseSelect := by
  unfold parseSelect parseSelection expectKeyword
  infer_instance

instance : Reports parseDelete := by
  unfold parseDelete expectKeyword
  infer_instance

instance : Reports parseStatement := by
  unfold parseStatement
  infer_instance

instance : Reports parseWhole := by
  unfold parseWhole expectEndOfStatement
  infer_instance

lemma parseTokens_reports {failure : SyntaxFailure}
    (failed : parseTokens tokens = .error (.failed failure)) :
    ∃ message, failure = .sqlException message := by
  rw [parseTokens] at failed
  cases ran : parseWhole tokens with
  | error error =>
    rw [ran] at failed
    cases failed
    exact Reports.reported tokens failure ran
  | ok next =>
    rw [ran] at failed
    cases failed

/-- Any text is parsed, with every literal as written, or refused with a `SqlException`, or has
a numeral out of range, and then and only then `std::out_of_range` is thrown.  The lexer needs no
more rounds than there are characters. -/
theorem parse_reports (sql : Bytes) :
    (∀ rounds ≥ sql.length, tokenizeLoop sql.length rounds sql = tokenize sql) ∧
    (parse sql = .error (.failed .outOfRange) ↔ ¬ NumeralsFit sql) ∧
    (parse sql = .error (.failed .outOfRange) ∨
      (∃ message, parse sql = .error (.failed (.sqlException message))) ∨
      ∃ tokens stmt, tokenize sql = .ok tokens ∧ parse sql = .ok stmt ∧ Derives tokens stmt ∧
        ∀ token ∈ tokens, token.type = .integerLiteral →
          token.intValue.toInt = literalValue token.text) := by
  rcases tokenizeLoop_cases le_rfl with ⟨outcome, lexed, ends⟩
  have tokens : tokenize sql = outcome := lexed 0
  refine ⟨fun rounds enough => ?_, ?_⟩
  · rw [← Nat.add_sub_of_le enough, lexed, tokens]
  rw [parse, tokens]
  rcases outcome with (message | _) | _
  · exact ⟨iff_of_false (by rintro ⟨⟩) (not_not_intro ends), .inr (.inl ⟨message, rfl⟩)⟩
  · exact ⟨iff_of_true rfl ends, .inl rfl⟩
  · obtain ⟨fit, body, rfl, rights⟩ := ends
    have ahead : Ahead isEnd (body ++ [endToken]) :=
      ⟨endToken, mem_append_right _ mem_cons_self, rfl⟩
    cases parsed : parseTokens (body ++ [endToken]) with
    | error error =>
      cases error with
      | pastEnd => exact absurd parsed (parseTokens_ne_pastEnd ahead)
      | failed failure =>
        rcases parseTokens_reports parsed with ⟨message, rfl⟩
        refine ⟨⟨fun threw => ?_, fun unfit => absurd fit unfit⟩, .inr (.inl ⟨message, parsed⟩)⟩
        cases parsed.symm.trans threw
    | ok stmt =>
      refine ⟨⟨fun threw => ?_, fun unfit => absurd fit unfit⟩, .inr (.inr ⟨_, stmt, rfl, parsed,
        (parseTokens_iff fun token mem => (rights token mem).1).mp parsed, ?_⟩)⟩
      · cases parsed.symm.trans threw
      · intro token mem isInteger
        rcases mem_append.mp mem with mem | mem
        · exact (rights token mem).2 isInteger
        · rw [mem_singleton.mp mem] at isInteger
          cases isInteger

/-- The digits of `2 ^ 63` make `Parse` throw a `std::out_of_range`. -/
theorem long_literal_escapes :
    parse [57, 50, 50, 51, 51, 55, 50, 48, 51, 54, 56, 53, 52, 55, 55, 53, 56, 48, 56] =
      .error (.failed .outOfRange) :=
  rfl

end DbEngine.Sql
