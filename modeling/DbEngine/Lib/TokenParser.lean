import DbEngine.Common.Lists

/-!
# Parsers over tokens

A parser takes tokens from the front of a list and looks at most one token ahead.  It is
described by the grammar of what it takes, which may depend on what is left.
-/

namespace DbEngine.Lib

variable {τ ε α β : Type}

/-- How a parser can fail. -/
inductive ParseError (ε : Type) where
  /-- A token behind the last one was asked for. -/
  | pastEnd
  | failed (error : ε)
  deriving Repr, DecidableEq

abbrev TokenParser (τ ε : Type) := StateT (List τ) (Except (ParseError ε))

namespace TokenParser

/-- Look at the next token. -/
def peek : TokenParser τ ε τ
  | [] => .error .pastEnd
  | token :: rest => .ok (token, token :: rest)

/-- Take the next token. -/
def advance : TokenParser τ ε τ
  | [] => .error .pastEnd
  | token :: rest => .ok (token, rest)

def fail (error : ε) : TokenParser τ ε α := fun _ => .error (.failed error)

/-- Take the next token for what it stands for, or fail. -/
def take (view : τ → Option α) (error : τ → ε) : TokenParser τ ε α := do
  let token ← peek
  match view token with
  | some value =>
    let _ ← advance
    return value
  | none => fail (error token)

/-- Take the next token if it passes the test. -/
def accept (test : τ → Bool) : TokenParser τ ε Bool := do
  let token ← peek
  if test token then
    let _ ← advance
    return true
  else return false

/-- The rounds of a loop that reads an item and goes on if a separator follows. -/
def separatedLoop (item : TokenParser τ ε α) (isSeparator : τ → Bool) :
    Nat → TokenParser τ ε (List α)
  | 0 => fun _ => .error .pastEnd
  | rounds + 1 => do
    let first ← item
    if ← accept isSeparator then
      let others ← separatedLoop item isSeparator rounds
      return first :: others
    else return [first]

/-- Items with a separator between any two of them.  Each round takes a token, so after as
many rounds as there are tokens there is none left to look at. -/
def separated (item : TokenParser τ ε α) (isSeparator : τ → Bool) : TokenParser τ ε (List α) :=
  fun input => separatedLoop item isSeparator input.length input

lemma take_cons (view : τ → Option α) (error : τ → ε) (token : τ) (rest : List τ) :
    take view error (token :: rest) = match view token with
      | some value => .ok (value, rest)
      | none => .error (.failed (error token)) := by
  cases seen : view token <;> simp [take, peek, advance, fail, seen, Bind.bind, StateT.bind,
    Except.bind, Pure.pure, StateT.pure, Except.pure]

lemma accept_cons (test : τ → Bool) (token : τ) (rest : List τ) :
    (accept test : TokenParser τ ε Bool) (token :: rest) =
      if test token then .ok (true, rest) else .ok (false, token :: rest) := by
  cases seen : test token <;> simp [accept, peek, advance, seen, Bind.bind, StateT.bind,
    Except.bind, Pure.pure, StateT.pure, Except.pure]

lemma bind_apply (parser : TokenParser τ ε α) (continue' : α → TokenParser τ ε β)
    (input : List τ) : (parser >>= continue') input =
      (parser input).bind fun next => continue' next.1 next.2 :=
  rfl

end TokenParser

open TokenParser

/-- The parser succeeds exactly if the grammar has a first part of the input. -/
def Parses (parser : TokenParser τ ε α) (grammar : List τ → List τ → α → Prop) : Prop :=
  ∀ input result rest, parser input = .ok (result, rest) ↔
    ∃ used, input = used ++ rest ∧ grammar used rest result

/-- The language of items with separators between them. -/
inductive Separated (item : List τ → α → Prop) (isSeparator : τ → Bool) :
    List τ → List α → Prop where
  | last (holds : item used value) :
      Separated item isSeparator used [value]
  | more (holds : item used value) (separates : isSeparator separator = true)
      (rest : Separated item isSeparator others values) :
      Separated item isSeparator (used ++ separator :: others) (value :: values)

namespace Parses

variable {parser : TokenParser τ ε α} {grammar : List τ → List τ → α → Prop}

lemma congr (parses : Parses parser grammar) {grammar' : List τ → List τ → α → Prop}
    (same : ∀ used rest result, grammar used rest result ↔ grammar' used rest result) :
    Parses parser grammar' := by
  intro input result rest
  rw [parses input result rest]
  exact exists_congr fun used => and_congr_right fun _ => same used rest result

lemma pure (value : α) :
    Parses (Pure.pure value : TokenParser τ ε α) fun used _ result => used = [] ∧ result = value := by
  intro input result rest
  constructor
  · intro ran
    cases ran
    exact ⟨[], rfl, rfl, rfl⟩
  · rintro ⟨used, rfl, rfl, rfl⟩
    rfl

lemma fail (error : ε) :
    Parses (TokenParser.fail error : TokenParser τ ε α) fun _ _ _ => False := by
  intro input result rest
  constructor
  · intro ran
    cases ran
  · rintro ⟨used, -, impossible⟩
    exact impossible.elim

lemma bind {continue' : α → TokenParser τ ε β} {grammar' : α → List τ → List τ → β → Prop}
    (parses : Parses parser grammar)
    (continues : ∀ value, Parses (continue' value) (grammar' value)) :
    Parses (parser >>= continue') fun used rest result =>
      ∃ value first second, used = first ++ second ∧ grammar first (second ++ rest) value ∧
        grammar' value second rest result := by
  intro input result rest
  rw [bind_apply]
  constructor
  · intro ran
    cases first : parser input with
    | error failure =>
      rw [first] at ran
      cases ran
    | ok next =>
      rw [first] at ran
      obtain ⟨used, rfl, holds⟩ := (parses input next.1 next.2).mp first
      obtain ⟨used', split, holds'⟩ := (continues next.1 next.2 result rest).mp ran
      rw [split] at holds
      exact ⟨used ++ used', by rw [split, append_assoc], next.1, used, used', rfl, holds,
        holds'⟩
  · rintro ⟨_, rfl, value, first, second, rfl, holds, holds'⟩
    have ran := (parses (first ++ (second ++ rest)) value (second ++ rest)).mpr ⟨first, rfl, holds⟩
    rw [append_assoc, ran]
    exact (continues value (second ++ rest) result rest).mpr ⟨second, rfl, holds'⟩

lemma peek : Parses (TokenParser.peek : TokenParser τ ε τ) fun used rest token =>
      used = [] ∧ ∃ tail, rest = token :: tail := by
  intro input token rest
  constructor
  · intro ran
    cases input with
    | nil => cases ran
    | cons first tail =>
      cases ran
      exact ⟨[], rfl, rfl, tail, rfl⟩
  · rintro ⟨_, rfl, rfl, tail, rfl⟩
    rfl

lemma take (view : τ → Option α) (error : τ → ε) :
    Parses (TokenParser.take view error) fun used _ result =>
      ∃ token, used = [token] ∧ view token = some result := by
  intro input result rest
  constructor
  · intro ran
    cases input with
    | nil => cases ran
    | cons token tail =>
      rw [take_cons] at ran
      cases seen : view token with
      | none =>
        rw [seen] at ran
        cases ran
      | some value =>
        rw [seen] at ran
        cases ran
        exact ⟨[token], rfl, token, rfl, seen⟩
  · rintro ⟨_, rfl, token, rfl, seen⟩
    rw [List.singleton_append, take_cons, seen]

lemma accept (test : τ → Bool) :
    Parses (TokenParser.accept test : TokenParser τ ε Bool) fun used rest result =>
      if result then ∃ token, used = [token] ∧ test token = true
      else used = [] ∧ ∃ token tail, rest = token :: tail ∧ test token = false := by
  intro input result rest
  constructor
  · intro ran
    cases input with
    | nil => cases ran
    | cons token tail =>
      rw [accept_cons] at ran
      cases seen : test token with
      | false =>
        rw [seen] at ran
        cases ran
        exact ⟨[], rfl, rfl, token, tail, rfl, seen⟩
      | true =>
        rw [seen] at ran
        cases ran
        exact ⟨[token], rfl, token, rfl, seen⟩
  · rintro ⟨used, rfl, holds⟩
    cases result with
    | true =>
      obtain ⟨token, rfl, passes⟩ := holds
      rw [List.singleton_append, accept_cons, if_pos passes]
    | false =>
      obtain ⟨rfl, token, tail, rfl, fails⟩ := holds
      rw [nil_append, accept_cons, fails]
      rfl

/-- A choice by what is accepted next. -/
lemma branch {test : τ → Bool} {taken other : TokenParser τ ε α}
    {grammar grammar' : List τ → List τ → α → Prop} (takes : Parses taken grammar)
    (others : Parses other grammar') :
    Parses (do if ← TokenParser.accept test then taken else other) fun used rest result =>
      (∃ token second, used = token :: second ∧ test token = true ∧ grammar second rest result) ∨
        grammar' used rest result ∧
          ∃ token tail, used ++ rest = token :: tail ∧ test token = false := by
  have parses : Parses (do if ← TokenParser.accept test then taken else other) _ :=
    bind (accept test) fun value => show Parses _ fun used rest result =>
      if value then grammar used rest result else grammar' used rest result by
        cases value with
        | true => exact takes
        | false => exact others
  apply parses.congr
  intro used rest result
  constructor
  · rintro ⟨value, first, second, rfl, accepted, holds⟩
    cases value with
    | true =>
      obtain ⟨token, rfl, passes⟩ := accepted
      exact .inl ⟨token, second, rfl, passes, holds⟩
    | false =>
      obtain ⟨rfl, next⟩ := accepted
      exact .inr ⟨holds, next⟩
  · rintro (⟨token, second, rfl, passes, holds⟩ | ⟨holds, next⟩)
    · exact ⟨true, [token], second, rfl, ⟨token, rfl, passes⟩, holds⟩
    · exact ⟨false, [], used, rfl, ⟨rfl, next⟩, holds⟩

section

variable {item : TokenParser τ ε α} {language : List τ → α → Prop} {isSeparator : τ → Bool}

/-- What follows does not begin with a separator. -/
def Stops (isSeparator : τ → Bool) (rest : List τ) : Prop :=
  ∃ token tail, rest = token :: tail ∧ isSeparator token = false

lemma separatedLoop (parses : Parses item fun used _ value => language used value) (rounds : Nat) :
    Parses (TokenParser.separatedLoop item isSeparator rounds) fun used rest values =>
      Separated language isSeparator used values ∧ values.length ≤ rounds ∧
        Stops isSeparator rest := by
  induction rounds with
  | zero =>
    intro input result rest
    constructor
    · intro ran
      cases ran
    · rintro ⟨used, -, separated, none, -⟩
      cases separated <;> cases none
  | succ rounds ih =>
    have body := bind parses fun first => @branch _ _ _ isSeparator _ _ _ _
      (bind ih fun others => pure (first :: others)) (pure [first])
    apply body.congr
    intro used rest values
    constructor
    · rintro ⟨first, taken, left, rfl, holds, more | last⟩
      · rcases more with ⟨separator, _, rfl, separates, others, second, third, rfl,
          ⟨separated, few, stops⟩, rfl, rfl⟩
        rw [append_nil]
        exact ⟨.more holds separates separated, Nat.succ_le_succ few, stops⟩
      · obtain ⟨⟨rfl, rfl⟩, stops⟩ := last
        rw [append_nil]
        exact ⟨.last holds, Nat.succ_le_succ (Nat.zero_le _), stops⟩
    · rintro ⟨separated, few, stops⟩
      cases separated with
      | last holds =>
        exact ⟨_, used, [], (append_nil _).symm, holds, .inr ⟨⟨rfl, rfl⟩, stops⟩⟩
      | more holds separates separated =>
        refine ⟨_, _, _, rfl, holds, .inl ⟨_, _, rfl, separates, _, _, [], (append_nil _).symm,
          ⟨separated, Nat.le_of_succ_le_succ few, stops⟩, rfl, rfl⟩⟩

/-- There are no more items than separators and what follows. -/
lemma length_le_of_separated (separated : Separated language isSeparator used values) :
    values.length ≤ used.length + 1 := by
  induction separated with
  | last holds => exact Nat.succ_le_succ (Nat.zero_le _)
  | more holds separates rest ih =>
    rw [length_cons, length_append, length_cons]
    omega

lemma separated (parses : Parses item fun used _ value => language used value) :
    Parses (TokenParser.separated item isSeparator) fun used rest values =>
      Separated language isSeparator used values ∧ Stops isSeparator rest := by
  intro input values rest
  rw [TokenParser.separated, separatedLoop parses input.length input values rest]
  apply exists_congr
  intro used
  constructor
  · rintro ⟨split, separated, -, stops⟩
    exact ⟨split, separated, stops⟩
  · rintro ⟨rfl, separated, stops⟩
    refine ⟨rfl, separated, ?_, stops⟩
    obtain ⟨token, tail, rfl, -⟩ := stops
    have few := length_le_of_separated separated
    rw [length_append, length_cons]
    omega

end

end Parses

/-! ## The end of the input -/

/-- There is an end token ahead. -/
def Ahead (isEnd : τ → Bool) (input : List τ) : Prop := ∃ token ∈ input, isEnd token = true

/-- On this input the parser does not run past the tokens, and it leaves an end token. -/
def GuardedAt (isEnd : τ → Bool) (parser : TokenParser τ ε α) (input : List τ) : Prop :=
  parser input ≠ .error .pastEnd ∧
    ∀ result rest, parser input = .ok (result, rest) → Ahead isEnd rest

/-- As long as there is an end token ahead, the parser neither runs past the tokens nor takes
the last such token. -/
def Guarded (isEnd : τ → Bool) (parser : TokenParser τ ε α) : Prop :=
  ∀ input, Ahead isEnd input → GuardedAt isEnd parser input

/-- A token that is taken is not the end token. -/
lemma Ahead.tail (ahead : Ahead isEnd (token :: rest)) (notEnd : isEnd token = false) :
    Ahead isEnd rest := by
  obtain ⟨other, mem, ends⟩ := ahead
  rcases mem_cons.mp mem with rfl | mem
  · rw [notEnd] at ends
    cases ends
  · exact ⟨other, mem, ends⟩

lemma GuardedAt.bind {isEnd : τ → Bool} {parser : TokenParser τ ε α} {input : List τ}
    {continue' : α → TokenParser τ ε β} (guarded : GuardedAt isEnd parser input)
    (continues : ∀ value rest, parser input = .ok (value, rest) → Ahead isEnd rest →
      GuardedAt isEnd (continue' value) rest) : GuardedAt isEnd (parser >>= continue') input := by
  obtain ⟨inside, kept⟩ := guarded
  rw [GuardedAt, bind_apply]
  cases first : parser input with
  | error failure =>
    rw [first] at inside
    constructor
    · intro ran
      cases ran
      exact inside rfl
    · intro result rest ran
      cases ran
  | ok next => exact continues next.1 next.2 first (kept next.1 next.2 first)

namespace Guarded

variable {isEnd : τ → Bool} {parser : TokenParser τ ε α}

lemma pure (value : α) : Guarded isEnd (Pure.pure value : TokenParser τ ε α) := by
  intro input ahead
  constructor
  · intro ran
    cases ran
  · intro result rest ran
    cases ran
    exact ahead

lemma fail (error : ε) : Guarded isEnd (TokenParser.fail error : TokenParser τ ε α) := by
  intro input ahead
  constructor
  · intro ran
    cases ran
  · intro result rest ran
    cases ran

lemma bind {continue' : α → TokenParser τ ε β} (guarded : Guarded isEnd parser)
    (continues : ∀ value, Guarded isEnd (continue' value)) :
    Guarded isEnd (parser >>= continue') := by
  intro input ahead
  apply (guarded input ahead).bind
  intro value rest _ still
  exact continues value rest still

lemma peek : Guarded isEnd (TokenParser.peek : TokenParser τ ε τ) := by
  intro input ahead
  cases input with
  | nil =>
    obtain ⟨_, mem, -⟩ := ahead
    cases mem
  | cons token tail => exact Guarded.pure token (token :: tail) ahead

lemma take (notEnd : ∀ token value, view token = some value → isEnd token = false) :
    Guarded isEnd (TokenParser.take view error) := by
  intro input ahead
  cases input with
  | nil =>
    obtain ⟨_, mem, -⟩ := ahead
    cases mem
  | cons token tail =>
    rw [GuardedAt, take_cons]
    cases seen : view token with
    | none => exact Guarded.fail _ _ ahead
    | some value => exact Guarded.pure value tail (ahead.tail (notEnd token value seen))

lemma accept (notEnd : ∀ token, test token = true → isEnd token = false) :
    Guarded isEnd (TokenParser.accept test : TokenParser τ ε Bool) := by
  intro input ahead
  cases input with
  | nil =>
    obtain ⟨_, mem, -⟩ := ahead
    cases mem
  | cons token tail =>
    rw [GuardedAt, accept_cons]
    cases seen : test token with
    | false => exact Guarded.pure false _ ahead
    | true => exact Guarded.pure true tail (ahead.tail (notEnd token seen))

lemma branch {test : τ → Bool} {taken other : TokenParser τ ε α}
    (notEnd : ∀ token, test token = true → isEnd token = false)
    (takes : Guarded isEnd taken) (others : Guarded isEnd other) :
    Guarded isEnd (do if ← TokenParser.accept test then taken else other) := by
  apply bind (accept notEnd)
  intro value
  cases value with
  | true => exact takes
  | false => exact others

section

variable {item : TokenParser τ ε α} {grammar : List τ → List τ → α → Prop}
  {isSeparator : τ → Bool}

/-- Every round but the last takes a separator, so the rounds outlast the tokens. -/
lemma separatedLoop (parses : Parses item grammar) (guarded : Guarded isEnd item)
    (notEnd : ∀ token, isSeparator token = true → isEnd token = false) {rounds : Nat}
    {input : List τ} (ahead : Ahead isEnd input) (enough : input.length ≤ rounds) :
    GuardedAt isEnd (TokenParser.separatedLoop item isSeparator rounds) input := by
  induction rounds generalizing input with
  | zero =>
    obtain ⟨_, mem, -⟩ := ahead
    rw [List.eq_nil_of_length_eq_zero (Nat.le_zero.mp enough)] at mem
    cases mem
  | succ rounds ih =>
    apply (guarded input ahead).bind
    intro first left ran still
    obtain ⟨used, rfl, -⟩ := (parses input first left).mp ran
    apply (accept notEnd left still).bind
    intro more rest accepted later
    obtain ⟨taken, rfl, holds⟩ := (Parses.accept isSeparator left more rest).mp accepted
    cases more with
    | false => exact Guarded.pure [first] rest later
    | true =>
      obtain ⟨separator, rfl, -⟩ := holds
      rw [length_append, length_append, length_singleton] at enough
      apply (ih later (by omega)).bind
      intro others rest _ ahead
      exact Guarded.pure (first :: others) rest ahead

lemma separated (parses : Parses item grammar) (guarded : Guarded isEnd item)
    (notEnd : ∀ token, isSeparator token = true → isEnd token = false) :
    Guarded isEnd (TokenParser.separated item isSeparator) :=
  fun _ ahead => separatedLoop parses guarded notEnd ahead le_rfl

end

end Guarded

end DbEngine.Lib
