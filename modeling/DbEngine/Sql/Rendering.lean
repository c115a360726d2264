import DbEngine.Sql.Grammar

/-!
# Statements as text

How a statement is written, token by token with spaces between them, and that the lexer and
the parser read it back.
-/

namespace DbEngine.Sql

open Lib

/-! ## How tokens are written -/

/-- The digits of a number. -/
def digitBytes (value : Nat) : Bytes :=
  if value = 0 then ['0'.toUInt8]
  else (Nat.digits 10 value).reverse.map fun digit => UInt8.ofNat ('0'.toNat + digit)

/-- An integer in decimal notation. -/
def decimal (value : Int64) : Bytes :=
  if value.toInt < 0 then '-'.toUInt8 :: digitBytes value.toInt.natAbs
  else digitBytes value.toInt.natAbs

/-- The text of a token in a statement. -/
def Token.word (token : Token) : Bytes :=
  match token.type with
  | .stringLiteral => quote :: (token.text ++ [quote])
  | _ => token.text

/-- `[A-Za-z_][A-Za-z0-9_]*`. -/
def IsIdentifier (text : Bytes) : Prop :=
  ∃ first rest, text = first :: rest ∧ startsIdentifier first = true ∧
    ∀ c ∈ rest, continuesIdentifier c = true

/-- The token is one that its text is read as. -/
def Token.Spelled (token : Token) : Prop :=
  match token.type with
  | .identifier => IsIdentifier token.text ∧ token.intValue = 0
  | .integerLiteral => token.text = decimal token.intValue
  | .stringLiteral => (∀ c ∈ token.text, c ≠ quote) ∧ token.intValue = 0
  | .lparen => token.text = ['('.toUInt8] ∧ token.intValue = 0
  | .rparen => token.text = [')'.toUInt8] ∧ token.intValue = 0
  | .comma => token.text = [','.toUInt8] ∧ token.intValue = 0
  | .semicolon => token.text = [';'.toUInt8] ∧ token.intValue = 0
  | .star => token.text = ['*'.toUInt8] ∧ token.intValue = 0
  | .eq => token.text = ['='.toUInt8] ∧ token.intValue = 0
  | .lt => token.text = ['<'.toUInt8] ∧ token.intValue = 0
  | .le => token.text = ['<'.toUInt8, '='.toUInt8] ∧ token.intValue = 0
  | .gt => token.text = ['>'.toUInt8] ∧ token.intValue = 0
  | .ge => token.text = ['>'.toUInt8, '='.toUInt8] ∧ token.intValue = 0
  | .end => False

/-- Nothing, or a space first. -/
def Apart (text : Bytes) : Prop := ∀ c, text.head? = some c → isSpace c = true

/-- Tokens with spaces around them, and at least one between any two. -/
inductive Spaced : List Token → Bytes → Prop where
  | nil {spaces : Bytes} (blank : ∀ c ∈ spaces, isSpace c = true) : Spaced [] spaces
  | cons {token : Token} {tokens : List Token} {spaces text : Bytes}
      (blank : ∀ c ∈ spaces, isSpace c = true) (spaced : Spaced tokens text) (apart : Apart text) :
      Spaced (token :: tokens) (spaces ++ (token.word ++ text))

/-! ## Reading a number -/

variable {digit size : Nat} {c first : UInt8} {test : UInt8 → Bool} {tokens : List Token}

lemma toNat_digit (small : digit < 10) :
    (UInt8.ofNat ('0'.toNat + digit)).toNat = '0'.toNat + digit := by
  apply UInt8.toNat_ofNat_of_lt
  have zero : '0'.toNat = 48 := rfl
  have size : UInt8.size = 256 := rfl
  omega

lemma digitsValue_reverse (small : ∀ digit ∈ digits, digit < 10) :
    digitsValue (digits.reverse.map fun digit => UInt8.ofNat ('0'.toNat + digit)) =
      Nat.ofDigits 10 digits := by
  rw [digitsValue, List.foldl_map, List.foldl_reverse, Nat.ofDigits_eq_foldr]
  induction digits with
  | nil => rfl
  | cons digit rest ih =>
    have later := ih fun other mem => small other (mem_cons_of_mem _ mem)
    rw [List.foldr_cons, List.foldr_cons, later, toNat_digit (small digit mem_cons_self)]
    simp
    omega

lemma digitsValue_digitBytes (value : Nat) : digitsValue (digitBytes value) = value := by
  rw [digitBytes]
  split
  next zero => rw [zero]; rfl
  · rw [digitsValue_reverse fun digit mem => Nat.digits_lt_base (by decide) mem,
      Nat.ofDigits_digits]

lemma isDigit_digit (small : digit < 10) : isDigit (UInt8.ofNat ('0'.toNat + digit)) = true := by
  have value := toNat_digit small
  have zero : '0'.toNat = 48 := rfl
  simp only [isDigit, Bool.and_eq_true, decide_eq_true_eq, UInt8.le_iff_toNat_le, value]
  exact ⟨Nat.le_add_right _ _, by change _ ≤ 57; omega⟩

lemma isDigit_of_mem_digitBytes (mem : c ∈ digitBytes value) : isDigit c = true := by
  rw [digitBytes] at mem
  split at mem
  · rw [mem_singleton.mp mem]
    rfl
  · obtain ⟨digit, digitMem, rfl⟩ := mem_map.mp mem
    exact isDigit_digit (Nat.digits_lt_base (by decide) (List.mem_reverse.mp digitMem))

lemma digitBytes_ne_nil (value : Nat) : digitBytes value ≠ [] := by
  rw [digitBytes]
  split
  · exact cons_ne_nil _ _
  next positive => simpa using Nat.digits_ne_nil_iff_ne_zero.mpr positive

/-- The test tells the two characters apart. -/
lemma ne_of_test {d : UInt8} (passes : test c = true) (fails : test d = false) : c ≠ d := by
  rintro rfl
  rw [passes] at fails
  cases fails

lemma stoll_decimal (value : Int64) : stoll (decimal value) = .ok value := by
  have literal : literalValue (decimal value) = value.toInt := by
    rw [decimal]
    split
    next negative =>
      rw [literalValue, if_pos rfl, digitsValue_digitBytes]
      omega
    next positive =>
      obtain ⟨first, rest, split⟩ := exists_cons_of_ne_nil (digitBytes_ne_nil value.toInt.natAbs)
      have digit : isDigit first = true :=
        isDigit_of_mem_digitBytes (by rw [split]; exact mem_cons_self)
      have digits := digitsValue_digitBytes value.toInt.natAbs
      rw [split] at digits ⊢
      rw [literalValue, if_neg (ne_of_test digit rfl), digits]
      omega
  have low := value.le_toInt
  have high := value.toInt_lt
  rw [stoll, literal, if_pos ⟨low, high⟩, Int64.ofInt_toInt]

/-! ## Reading a token -/

lemma takeWhile_apart {word text : Bytes} (all : ∀ c ∈ word, test c = true)
    (stops : ∀ c, text.head? = some c → test c = false) :
    (word ++ text).takeWhile test = word ∧ (word ++ text).dropWhile test = text := by
  induction word with
  | nil =>
    cases text with
    | nil => exact ⟨rfl, rfl⟩
    | cons c rest => simp [stops c rfl]
  | cons c rest ih =>
    obtain ⟨taken, dropped⟩ := ih fun other mem => all other (mem_cons_of_mem _ mem)
    simp [all c mem_cons_self, taken, dropped]

/-- A fact about bytes can be checked byte by byte. -/
lemma forall_byte {property : UInt8 → Prop} (all : ∀ n : Fin 256, property (UInt8.ofNat n.val))
    (c : UInt8) : property c := by
  have holds := all ⟨c.toNat, c.toNat_lt⟩
  rwa [UInt8.ofNat_toNat] at holds

lemma not_word_of_isSpace :
    ∀ c, isSpace c = true → isDigit c = false ∧ continuesIdentifier c = false ∧ c ≠ '='.toUInt8 :=
  forall_byte (by decide +kernel)

lemma not_digit_of_starts :
    ∀ c, startsIdentifier c = true → isDigit c = false ∧ c ≠ '-'.toUInt8 ∧ isSpace c = false :=
  forall_byte (by decide +kernel)

lemma not_space_of_number : ∀ c, isDigit c = true ∨ c = '-'.toUInt8 → isSpace c = false :=
  forall_byte (by decide +kernel)

/-- The characters that the first tests of the loop are for. -/
def symbols : Bytes :=
  ['('.toUInt8, ')'.toUInt8, ','.toUInt8, ';'.toUInt8, '*'.toUInt8, '='.toUInt8, '<'.toUInt8,
    '>'.toUInt8, quote]

lemma not_symbol_of_word :
    ∀ c, isDigit c = true ∨ c = '-'.toUInt8 ∨ startsIdentifier c = true → c ∉ symbols :=
  forall_byte (by decide +kernel)

lemma nextToken_of_not_symbol (other : c ∉ symbols) (position : Nat) (rest : Bytes) :
    nextToken position c rest = if isDigit c || (c = '-'.toUInt8 && rest.head?.any isDigit) then do
        let value ← stoll (c :: rest.takeWhile isDigit)
        return ({ type := .integerLiteral, text := c :: rest.takeWhile isDigit, intValue := value },
          rest.dropWhile isDigit) else if startsIdentifier c then
        .ok ({ type := .identifier, text := c :: rest.takeWhile continuesIdentifier },
          rest.dropWhile continuesIdentifier) else .error (.sqlException
        ("unexpected character '" ++ toText [c] ++ "' at position " ++ toString position)) := by
  simp only [symbols, mem_cons, not_or] at other
  obtain ⟨a, b, c, d, e, f, g, h, i, -⟩ := other
  rw [nextToken, if_neg a, if_neg b, if_neg c, if_neg d, if_neg e, if_neg f, if_neg g, if_neg h,
    if_neg i]

lemma decimal_cons (value : Int64) :
    ∃ first digits, decimal value = first :: digits ∧ (∀ c ∈ digits, isDigit c = true) ∧
      (isDigit first = true ∨ first = '-'.toUInt8 ∧ digits ≠ []) := by
  have all (c : UInt8) (mem : c ∈ digitBytes value.toInt.natAbs) : isDigit c = true :=
    isDigit_of_mem_digitBytes mem
  have some := digitBytes_ne_nil value.toInt.natAbs
  rw [decimal]
  split
  · exact ⟨_, _, rfl, all, .inr ⟨rfl, some⟩⟩
  · obtain ⟨first, rest, spells⟩ := exists_cons_of_ne_nil some
    rw [spells] at all ⊢
    exact ⟨first, rest, rfl, fun c mem => all c (mem_cons_of_mem _ mem),
      .inl (all first mem_cons_self)⟩

lemma nextToken_digits {digits text : Bytes}
    (begins : isDigit first = true ∨ first = '-'.toUInt8 ∧ digits ≠ [])
    (all : ∀ c ∈ digits, isDigit c = true) (spells : decimal value = first :: digits)
    (apart : Apart text) (position : Nat) : nextToken position first (digits ++ text) =
      .ok ({ type := .integerLiteral, text := first :: digits, intValue := value }, text) := by
  have taken := takeWhile_apart all fun c head => (not_word_of_isSpace c (apart c head)).1
  have read : stoll (first :: digits) = .ok value := by rw [← spells, stoll_decimal]
  have other : first ∉ symbols := not_symbol_of_word first (begins.imp_right (.inl ∘ And.left))
  have number :
      (isDigit first || (first = '-'.toUInt8 && (digits ++ text).head?.any isDigit)) = true := by
    rcases begins with digit | ⟨rfl, some⟩
    · simp [digit]
    · obtain ⟨second, rest, rfl⟩ := exists_cons_of_ne_nil some
      simp [all second mem_cons_self]
  rw [nextToken_of_not_symbol other, if_pos number, taken.1, taken.2, read]
  rfl

lemma nextToken_identifier (begins : startsIdentifier first = true)
    (all : ∀ c ∈ rest, continuesIdentifier c = true) (apart : Apart text) (position : Nat) :
    nextToken position first (rest ++ text) =
      .ok ({ type := .identifier, text := first :: rest }, text) := by
  have taken := takeWhile_apart all fun c head => (not_word_of_isSpace c (apart c head)).2.1
  have other : first ∉ symbols := not_symbol_of_word first (.inr (.inr begins))
  have digit := not_digit_of_starts first begins
  rw [nextToken_of_not_symbol other, if_neg (by simp [digit]), if_pos begins, taken.1, taken.2]

lemma nextToken_string {content text : Bytes} (plain : ∀ c ∈ content, c ≠ quote)
    (position : Nat) : nextToken position quote (content ++ quote :: text) =
      .ok ({ type := .stringLiteral, text := content }, text) := by
  have taken := @takeWhile_apart (fun c => decide (c ≠ quote)) content (quote :: text)
    (fun c mem => decide_eq_true (plain c mem)) (by simp)
  simp only [nextToken, taken.1, taken.2]
  rfl

/-- The first byte of a token is no space, and the lexer reads the token from there. -/
lemma nextToken_word {token : Token} (spelled : token.Spelled) {text : Bytes}
    (apart : Apart text) (position : Nat) :
    ∃ first tail, token.word = first :: tail ∧ isSpace first = false ∧
      nextToken position first (tail ++ text) = .ok (token, text) := by
  obtain ⟨type, bytes, value⟩ := token
  have equals : text.head? ≠ some '='.toUInt8 := fun head =>
    (not_word_of_isSpace _ (apart _ head)).2.2 rfl
  cases type with
  | lt | gt =>
    obtain ⟨rfl, rfl⟩ := spelled
    exact ⟨_, _, rfl, rfl, if_neg equals⟩
  | «end» => exact spelled.elim
  | identifier =>
    obtain ⟨⟨first, rest, rfl, begins, all⟩, rfl⟩ := spelled
    exact ⟨first, rest, rfl, (not_digit_of_starts first begins).2.2,
      nextToken_identifier begins all apart position⟩
  | integerLiteral =>
    have text : bytes = decimal value := spelled
    obtain ⟨first, digits, spells, all, begins⟩ := decimal_cons value
    rw [text, spells]
    exact ⟨first, digits, rfl, not_space_of_number first (begins.imp_right And.left),
      nextToken_digits begins all spells apart position⟩
  | stringLiteral =>
    obtain ⟨plain, rfl⟩ := spelled
    have closed : bytes ++ [quote] ++ text = bytes ++ quote :: text := by simp
    exact ⟨quote, bytes ++ [quote], rfl, rfl, closed ▸ nextToken_string plain position⟩
  | _ =>
    obtain ⟨rfl, rfl⟩ := spelled
    exact ⟨_, _, rfl, rfl, rfl⟩

/-- The token at the end of the input. -/
def endToken : Token := { type := .end, text := [] }

lemma tokenizeLoop_spaces {spaces text : Bytes} (blank : ∀ c ∈ spaces, isSpace c = true) :
    tokenizeLoop size (spaces.length + rounds) (spaces ++ text) = tokenizeLoop size rounds text := by
  induction spaces with
  | nil => rw [length_nil, Nat.zero_add, nil_append]
  | cons c rest ih =>
    rw [length_cons, Nat.add_right_comm, cons_append, tokenizeLoop, if_pos (blank c mem_cons_self)]
    exact ih fun other mem => blank other (mem_cons_of_mem _ mem)

lemma tokenizeLoop_nil (size rounds : Nat) : tokenizeLoop size rounds [] = .ok [endToken] := by
  cases rounds <;> rfl

/-- The loop reads every token and then the end. -/
lemma tokenizeLoop_spaced (spaced : Spaced tokens text)
    (spelled : ∀ token ∈ tokens, token.Spelled) {rounds : Nat} (enough : text.length ≤ rounds) :
    tokenizeLoop size rounds text = .ok (tokens ++ [endToken]) := by
  induction spaced generalizing rounds with
  | nil blank =>
    obtain ⟨more, rfl⟩ := Nat.exists_eq_add_of_le enough
    have skipped := @tokenizeLoop_spaces size more _ [] blank
    rw [append_nil] at skipped
    rw [skipped, tokenizeLoop_nil]
    rfl
  | @cons token tokens spaces text blank _ apart ih =>
    rw [length_append] at enough
    obtain ⟨left, rfl⟩ := Nat.exists_eq_add_of_le (Nat.le_of_add_right_le enough)
    have inside : (token.word ++ text).length ≤ left := Nat.le_of_add_le_add_left enough
    rw [tokenizeLoop_spaces blank]
    rcases nextToken_word (spelled token mem_cons_self) apart
      (size - (token.word ++ text).length) with ⟨first, tail, word, solid, read⟩
    rw [word, cons_append] at inside read ⊢
    cases left with
    | zero => exact absurd inside (Nat.not_succ_le_zero _)
    | succ left =>
      have shorter : text.length ≤ left := by
        rw [length_cons, length_append] at inside
        omega
      have later := ih (fun other mem => spelled other (mem_cons_of_mem _ mem)) shorter
      rw [tokenizeLoop, solid, if_neg Bool.false_ne_true, read]
      change (tokenizeLoop size left text).bind _ = _
      rw [later]
      rfl

lemma tokenize_spaced (spaced : Spaced tokens text) (spelled : ∀ token ∈ tokens, token.Spelled) :
    tokenize text = .ok (tokens ++ [endToken]) :=
  tokenizeLoop_spaced spaced spelled le_rfl

end DbEngine.Sql
