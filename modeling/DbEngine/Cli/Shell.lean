import DbEngine.Sql.Database
import DbEngine.Sql.RoundTrip
import DbEngine.Storage.DiskManager

/-!
# The shell

`cli/shell.cpp`.  A line is split into words at whitespace.  The text of a `write` and the
statement of an `sql` are the rest of the line from where their first word is found; the search
begins at the start of the line, and so it may find the word inside of an earlier one.
-/

namespace DbEngine.Cli

open Sql (isSpace isDigit toText nameBytes digitsValue forall_byte QueryResult)
open Storage (DiskManager)

/-- A page of bytes. -/
abbrev Page := Fin PAGE_SIZE → UInt8

/-- The buffer of a `write`: the text, cut off at the end of the page or padded with zeros. -/
def pageOf (text : Bytes) : Page := fun i => text.getD i 0

/-- `Shell`, with the counters of its `DiskManager`. -/
structure Shell (Db : Type) where
  disk : DiskManager Page
  numReads : Nat := 0
  numWrites : Nat := 0
  database : Option Db := none

/-- What `ExecuteLine` throws. -/
inductive Thrown where
  | invalidArgument
  | outOfRange
  | ioException
  deriving DecidableEq

/-- `Tokenize`. -/
def tokenize (line : Bytes) : List Bytes := (line.splitOnP isSpace).filter (· ≠ [])

/-- `std::stoll`: an optional sign, digits, and whatever follows. -/
def stoll (word : Bytes) : Except Thrown Int64 :=
  let minus := word.head? == some '-'.toUInt8
  let unsigned := if minus || word.head? == some '+'.toUInt8 then word.tail else word
  match unsigned.takeWhile isDigit with
  | [] => .error .invalidArgument
  | digits =>
    let value : Int := if minus then -digitsValue digits else digitsValue digits
    if -2 ^ 63 ≤ value ∧ value < 2 ^ 63 then .ok (Int64.ofInt value) else .error .outOfRange

/-- `line.substr(line.find(word))`. -/
def fromFirst (word : Bytes) : Bytes → Except Thrown Bytes
  | [] => .error .outOfRange
  | c :: rest => if word <+: c :: rest then .ok (c :: rest) else fromFirst word rest

/-- The page at the offset of `DiskManager::ReadPage` and `WritePage`, whose product may
overflow.  No page lies behind the largest offset. -/
def pageAt (pageId : Int64) : Except Thrown Nat :=
  let offset := (pageId * 4096).toInt
  if 0 ≤ offset ∧ offset + PAGE_SIZE < 2 ^ 63 then .ok (offset.toNat / PAGE_SIZE)
  else .error .ioException

/-- `PrintHelp`. -/
def help : String :=
  "Commands:\n" ++
  "  alloc                    allocate a new page, prints its id\n" ++
  "  write <page_id> <text>   write text (padded/truncated to a page) to page_id\n" ++
  "  read <page_id>           read page_id and print it as text\n" ++
  "  stats                    print page count / read / write counters\n" ++
  "  sql <statement>          run one SQL statement (CREATE TABLE / INSERT / SELECT / DELETE)\n" ++
  "  help                     show this message\n" ++
  "  exit                     quit the shell\n"

/-- One line of a result. -/
def printCells (cells : List String) : String :=
  if cells = [] then "" else " | ".intercalate cells ++ "\n"

def printValue : Sql.Value → String
  | .integer value => toString value
  | .text value => toText value

/-- `PrintQueryResult`. -/
def printQueryResult (result : QueryResult) : String :=
  (if result.columnNames = [] then "" else printCells result.columnNames ++
    String.join (result.rows.map fun row => printCells (row.map printValue))) ++
    result.message ++ "\n"

/-- What the shell prints for a statement. -/
def report : Except String QueryResult → String
  | .ok result => printQueryResult result
  | .error what => "error: " ++ what ++ "\n"

variable {Db : Type} (create : Db) (execute : Bytes → Db → Except String QueryResult × Db)

/-- `Shell::ExecuteLine`: whether to go on, what is printed and what becomes of the shell. -/
def executeLine (line : Bytes) (shell : Shell Db) : Except Thrown (Bool × String × Shell Db) :=
  match tokenize line with
  | [] => .ok (true, "", shell)
  | command :: words =>
    let cmd := toText command
    if cmd = "exit" ∨ cmd = "quit" then .ok (false, "", shell)
    else if cmd = "help" then .ok (true, help, shell)
    else if cmd = "alloc" then
      let (pageId, disk) := shell.disk.allocatePage
      .ok (true, "allocated page " ++ toString pageId ++ "\n", { shell with disk })
    else if cmd = "write" then
      match words with
      | id :: word :: _ => do
        let pageId ← stoll id
        let text ← fromFirst word line
        let page ← pageAt pageId
        return (true, "wrote " ++ toString (min text.length PAGE_SIZE) ++ " bytes to page " ++
          toString pageId ++ "\n", { shell with
            disk := shell.disk.writePage page (pageOf text), numWrites := shell.numWrites + 1 })
      | _ => .ok (true, "usage: write <page_id> <text>\n", shell)
    else if cmd = "read" then
      match words with
      | id :: _ => do
        let pageId ← stoll id
        let page ← pageAt pageId
        -- The page is printed as a C string; one without a zero byte would be read past its end.
        let text := (List.ofFn (shell.disk.readPage page)).takeWhile (· ≠ 0)
        return (true, "page " ++ toString pageId ++ ": " ++ toText text ++ "\n",
          { shell with numReads := shell.numReads + 1 })
      | _ => .ok (true, "usage: read <page_id>\n", shell)
    else if cmd = "stats" then
      .ok (true, "pages allocated: " ++ toString shell.disk.getNumPages ++ "\ndisk reads:      " ++
        toString shell.numReads ++ "\ndisk writes:     " ++ toString shell.numWrites ++ "\n", shell)
    else if cmd = "sql" then
      match words with
      | word :: _ => do
        let statement ← fromFirst word line
        let (outcome, database) := execute statement (shell.database.getD create)
        return (true, report outcome, { shell with database := some database })
      | _ => .ok (true, "usage: sql <statement>\n", shell)
    else .ok (true, "unknown command '" ++ cmd ++ "', type 'help' for a list\n", shell)

/-! ## Words -/

/-- Whitespace. -/
def Blank (text : Bytes) : Prop := ∀ c ∈ text, isSpace c = true

/-- Whitespace between two words. -/
def Gap (text : Bytes) : Prop := Blank text ∧ text ≠ []

/-- A word. -/
def Word (text : Bytes) : Prop := (∀ c ∈ text, isSpace c = false) ∧ text ≠ []

variable {blank gap word earlier rest tail : Bytes}

lemma tokenize_blank (isBlank : Blank blank) : tokenize (blank ++ rest) = tokenize rest := by
  induction blank with
  | nil => rfl
  | cons c blank ih =>
    obtain ⟨space, later⟩ := forall_mem_cons.mp isBlank
    rw [← ih later, tokenize, cons_append, List.splitOnP_cons_eq_if_modifyHead, if_pos space]
    rfl

lemma tokenize_word (isWord : Word word) (isGap : Gap gap) :
    tokenize (word ++ (gap ++ rest)) = word :: tokenize rest := by
  obtain ⟨c, blank, rfl⟩ := exists_cons_of_ne_nil isGap.2
  obtain ⟨space, later⟩ := forall_mem_cons.mp isGap.1
  rw [tokenize, cons_append, List.splitOnP_append_cons_of_forall_mem isWord.1 c space,
    List.filter_cons_of_pos (by simpa using isWord.2)]
  exact congrArg (word :: ·) (tokenize_blank later)

lemma tokenize_text (isWord : Word word) (ends : ∀ c ∈ tail.head?, isSpace c = true) :
    ∃ more, tokenize (word ++ tail) = word :: more := by
  cases tail with
  | nil =>
    rw [append_nil, tokenize, List.splitOnP_eq_singleton isWord.1]
    exact ⟨[], filter_eq_self.mpr (by simpa using isWord.2)⟩
  | cons c tail =>
    have isGap : Gap [c] := ⟨forall_mem_singleton.mpr (ends c rfl), cons_ne_nil _ _⟩
    exact ⟨_, tokenize_word isWord isGap⟩

/-! ## Finding a word -/

lemma fromFirst_blank (isWord : Word word) (isBlank : Blank blank) :
    fromFirst word (blank ++ rest) = fromFirst word rest := by
  induction blank with
  | nil => rfl
  | cons c blank ih =>
    obtain ⟨space, later⟩ := forall_mem_cons.mp isBlank
    obtain ⟨d, letters, rfl⟩ := exists_cons_of_ne_nil isWord.2
    rw [cons_append, fromFirst, if_neg, ih later]
    intro found
    rw [← (List.cons_prefix_cons.mp found).1, isWord.1 d mem_cons_self] at space
    exact Bool.false_ne_true space

lemma fromFirst_word (isWord : Word word) (isGap : Gap gap) (apart : ¬ word <:+: earlier) :
    fromFirst word (earlier ++ (gap ++ rest)) = fromFirst word rest := by
  induction earlier with
  | nil => exact fromFirst_blank isWord isGap.1
  | cons c earlier ih =>
    -- A word found here ends before the gap.
    have elsewhere : ¬ word <+: c :: earlier ++ (gap ++ rest) := by
      intro found
      have whole := List.prefix_append (c :: earlier) (gap ++ rest)
      rcases List.prefix_or_prefix_of_prefix found whole with inside | ⟨tail, rfl⟩
      · exact apart inside.isInfix
      · obtain ⟨d, blank, rfl⟩ := exists_cons_of_ne_nil isGap.2
        have space := isGap.1 d mem_cons_self
        cases tail with
        | nil => exact apart (by simp)
        | cons e tail =>
          rw [List.prefix_append_right_inj] at found
          rw [← (List.cons_prefix_cons.mp found).1, isWord.1 e (by simp)] at space
          exact Bool.false_ne_true space
    rw [cons_append] at elsewhere ⊢
    rw [fromFirst, if_neg elsewhere]
    exact ih fun found => apart (found.trans (List.suffix_cons c earlier).isInfix)

lemma fromFirst_self (isWord : Word word) : fromFirst word (word ++ tail) = .ok (word ++ tail) := by
  obtain ⟨c, letters, rfl⟩ := exists_cons_of_ne_nil isWord.2
  exact if_pos (List.prefix_append _ _)

lemma fromFirst_inside (rest : Bytes) (isWord : Word word) (found : word <:+: earlier) :
    ∃ more, fromFirst word (earlier ++ rest) = .ok (more ++ rest) ∧ more <:+ earlier := by
  induction earlier with
  | nil => exact absurd (List.infix_nil.mp found) isWord.2
  | cons c earlier ih =>
    rw [cons_append, fromFirst]
    split
    · exact ⟨c :: earlier, rfl, List.suffix_refl _⟩
    next elsewhere =>
      rcases List.infix_cons_iff.mp found with first | later
      · exact absurd (first.trans (List.prefix_append (c :: earlier) rest)) elsewhere
      · obtain ⟨more, ran, part⟩ := ih later
        exact ⟨more, ran, part.trans (List.suffix_cons c earlier)⟩

/-- A search that begins an earlier word before finds the same text, unless that word has the
text's first word in it; then it finds more. -/
lemma fromFirst_earlier {text : Bytes} (isWord : Word word) (isGap : Gap gap)
    (found : fromFirst word rest = .ok text) (suffix : text <:+ rest) (earlier : Bytes) :
    ∃ text', fromFirst word (earlier ++ (gap ++ rest)) = .ok text' ∧ text <:+ text' ∧
      text' <:+ earlier ++ (gap ++ rest) ∧ (text' = text ↔ ¬ word <:+: earlier) := by
  by_cases inside : word <:+: earlier
  · obtain ⟨more, ran, before, rfl⟩ := fromFirst_inside (gap ++ rest) isWord inside
    have behind := suffix.trans (List.suffix_append gap rest)
    refine ⟨_, ran, behind.trans (List.suffix_append more _), ⟨before, by simp⟩,
      iff_of_false (fun same => ?_) (not_not.mpr inside)⟩
    have longer := congrArg List.length same
    have some := List.length_pos_iff.mpr isGap.2
    have upTo := suffix.length_le
    simp only [length_append] at longer
    omega
  · exact ⟨text, (fromFirst_word isWord isGap inside).trans found, List.suffix_refl text,
      suffix.trans ((List.suffix_append gap rest).trans (List.suffix_append earlier _)),
      iff_of_true rfl inside⟩

/-! ## The text of a line -/

/-- A line `sql <statement>`; the statement begins with a word. -/
structure SqlLine where
  lead : Bytes
  gap : Bytes
  word : Bytes
  tail : Bytes
  isBlank : Blank lead
  isGap : Gap gap
  isWord : Word word
  ends : ∀ c ∈ tail.head?, isSpace c = true

/-- A line `write <page_id> <text>`, for a page that a file can have. -/
structure WriteLine extends SqlLine where
  id : Bytes
  gap' : Bytes
  isNumber : id ≠ [] ∧ ∀ c ∈ id, isDigit c = true
  fits : digitsValue id * PAGE_SIZE + PAGE_SIZE < 2 ^ 63
  isGap' : Gap gap'

/-- The text as it stands on the line. -/
def SqlLine.text (line : SqlLine) : Bytes := line.word ++ line.tail

def SqlLine.bytes (line : SqlLine) : Bytes :=
  line.lead ++ (nameBytes "sql" ++ (line.gap ++ line.text))

def WriteLine.bytes (line : WriteLine) : Bytes :=
  line.lead ++ (nameBytes "write" ++ (line.gap ++ (line.id ++ (line.gap' ++ line.text))))

lemma not_sign_of_isDigit :
    ∀ c, isDigit c = true → c ≠ '-'.toUInt8 ∧ c ≠ '+'.toUInt8 ∧ isSpace c = false :=
  forall_byte (by decide +kernel)

lemma stoll_digits {id : Bytes} (digits : ∀ c ∈ id, isDigit c = true) (some : id ≠ [])
    (fits : digitsValue id < 2 ^ 63) : stoll id = .ok (Int64.ofNat (digitsValue id)) := by
  have all : id.takeWhile isDigit = id := List.takeWhile_eq_self_iff.mpr digits
  obtain ⟨c, rest, rfl⟩ := exists_cons_of_ne_nil some
  obtain ⟨minus, plus, -⟩ := not_sign_of_isDigit c (digits c mem_cons_self)
  rw [stoll]
  simpa [minus, plus, all, Int64.ofInt_eq_ofNat] using fits

lemma pageAt_ofNat {page : Nat} (fits : page * PAGE_SIZE + PAGE_SIZE < 2 ^ 63) :
    pageAt (Int64.ofNat page) = .ok page := by
  have back : (Int64.ofNat page * 4096).toInt = (page * PAGE_SIZE : Nat) := by
    rw [← Int64.toInt_ofNat_of_lt (Nat.lt_of_add_right_lt fits), Int64.ofNat_mul]
    rfl
  rw [pageAt, back, if_pos ⟨Int.natCast_nonneg _, mod_cast fits⟩, Int.toNat_natCast,
    Nat.mul_div_cancel _ (by decide)]

variable {create execute} {shell : Shell Db} {line id text : Bytes} {more : List Bytes}

lemma executeLine_write {pageId : Int64} {page : Nat}
    (words : tokenize line = nameBytes "write" :: id :: word :: more)
    (number : stoll id = .ok pageId) (found : fromFirst word line = .ok text)
    (place : pageAt pageId = .ok page) :
    ∃ out, executeLine create execute line shell = .ok (true, out, { shell with
      disk := shell.disk.writePage page (pageOf text), numWrites := shell.numWrites + 1 }) := by
  have command : toText (nameBytes "write") = "write" := by decide
  rw [executeLine, words]
  simp [bind, Except.bind, number, found, place, command]
  exact ⟨_, rfl⟩

lemma executeLine_sql (words : tokenize line = nameBytes "sql" :: word :: more)
    (found : fromFirst word line = .ok text) : executeLine create execute line shell =
      let (outcome, database) := execute text (shell.database.getD create)
      .ok (true, report outcome, { shell with database := some database }) := by
  have command : toText (nameBytes "sql") = "sql" := by decide
  rw [executeLine, words]
  simp [found, command]

/-- `ExecuteLine` writes to the page named what it finds on the line from the first word of the
text on, and executes what it finds from the first word of the statement on.  That is the text, or
the statement, if and only if the word is not inside of an earlier one. -/
theorem executeLine_passes_text (create : Db)
    (execute : Bytes → Db → Except String QueryResult × Db) (shell : Shell Db) :
    (∀ line : WriteLine, ∃ text out after, fromFirst line.word line.bytes = .ok text ∧
      executeLine create execute line.bytes shell = .ok (true, out, after) ∧
      after.disk.readPage (digitsValue line.id) = pageOf text ∧
      (text = line.text ↔ ¬ line.word <:+: nameBytes "write" ∧ ¬ line.word <:+: line.id)) ∧
    ∀ line : SqlLine, ∃ text, executeLine create execute line.bytes shell =
        (let (outcome, database) := execute text (shell.database.getD create)
        .ok (true, report outcome, { shell with database := some database })) ∧
      (text = line.text ↔ ¬ line.word <:+: nameBytes "sql") := by
  constructor
  · intro line
    have isNumber : Word line.id :=
      ⟨fun c mem => (not_sign_of_isDigit c (line.isNumber.2 c mem)).2.2, line.isNumber.1⟩
    have isCommand : Word (nameBytes "write") := ⟨by decide +kernel, by decide⟩
    rcases tokenize_text line.isWord line.ends with ⟨more, last⟩
    have words : tokenize line.bytes = nameBytes "write" :: line.id :: line.word :: more := by
      rw [WriteLine.bytes, tokenize_blank line.isBlank, tokenize_word isCommand line.isGap,
        tokenize_word isNumber line.isGap', SqlLine.text, last]
    obtain ⟨text, found, larger, suffix, same⟩ := fromFirst_earlier line.isWord line.isGap'
      (fromFirst_self line.isWord) (List.suffix_refl _) line.id
    obtain ⟨text', found', larger', -, same'⟩ :=
      fromFirst_earlier line.isWord line.isGap found suffix (nameBytes "write")
    have found'' := (fromFirst_blank line.isWord line.isBlank).trans found'
    have small : digitsValue line.id < 2 ^ 63 := by
      have fits := line.fits
      rw [PAGE_SIZE] at fits
      omega
    rcases executeLine_write words (stoll_digits line.isNumber.2 line.isNumber.1 small)
      found'' (pageAt_ofNat line.fits) with ⟨out, done⟩
    refine ⟨text', out, _, found'', done, Storage.readFile_writeFile_self .., ?_⟩
    constructor
    · intro whole
      have both : text = line.text :=
        (larger'.trans (whole ▸ List.suffix_refl _)).eq_of_length_le larger.length_le
      exact ⟨same'.mp (whole.trans both.symm), same.mp both⟩
    · rintro ⟨apart, apart'⟩
      exact (same'.mpr apart).trans (same.mpr apart')
  · intro line
    have isCommand : Word (nameBytes "sql") := ⟨by decide +kernel, by decide⟩
    rcases tokenize_text line.isWord line.ends with ⟨more, last⟩
    obtain ⟨text, found, -, -, same⟩ := fromFirst_earlier line.isWord line.isGap
      (fromFirst_self line.isWord) (List.suffix_refl _) (nameBytes "sql")
    have words : tokenize line.bytes = nameBytes "sql" :: line.word :: more := by
      rw [SqlLine.bytes, tokenize_blank line.isBlank, tokenize_word isCommand line.isGap,
        SqlLine.text, last]
    exact ⟨text, executeLine_sql words
      ((fromFirst_blank line.isWord line.isBlank).trans found), same⟩

/-- `write 1 hi`. -/
def writeHi : WriteLine where
  lead := []
  gap := nameBytes " "
  word := nameBytes "hi"
  tail := []
  isBlank := by rintro _ ⟨⟩
  isGap := ⟨forall_mem_singleton.mpr (by decide), by decide⟩
  isWord := ⟨by decide +kernel, by decide⟩
  ends := by rintro _ ⟨⟩
  id := nameBytes "1"
  gap' := nameBytes " "
  isNumber := ⟨by decide, by decide +kernel⟩
  fits := by decide
  isGap' := ⟨forall_mem_singleton.mpr (by decide), by decide⟩

theorem executeLine_passes_text_writeHi : writeHi.bytes = nameBytes "write 1 hi" ∧ ∃ out after,
    executeLine () (fun _ _ => (.error "", ())) writeHi.bytes { disk := .open [] } =
      .ok (true, out, after) ∧ after.disk.readPage 1 = pageOf (nameBytes "hi") := by
  refine ⟨by decide, ?_⟩
  obtain ⟨text, out, after, -, done, read, whole⟩ :=
    (executeLine_passes_text () (fun _ _ => (.error "", ())) { disk := .open [] }).1 writeHi
  have same : text = nameBytes "hi" := whole.mpr ⟨by decide, by decide⟩
  exact ⟨out, after, done, same ▸ read⟩

/-- The text `r` is found in the word `write`. -/
theorem write_finds_command : ∃ out after,
    executeLine () (fun _ _ => (.error "", ())) (nameBytes "write 1 r") { disk := .open [] } =
      .ok (true, out, after) ∧
    after.disk.readPage 1 = pageOf (nameBytes "rite 1 r") ∧
    after.disk.readPage 1 ≠ pageOf (nameBytes "r") := by
  have words : tokenize (nameBytes "write 1 r") =
      [nameBytes "write", nameBytes "1", nameBytes "r"] := by rfl
  have found : fromFirst (nameBytes "r") (nameBytes "write 1 r") = .ok (nameBytes "rite 1 r") := by
    rfl
  rcases executeLine_write words rfl found rfl with ⟨out, done⟩
  refine ⟨out, _, done, rfl, fun same => ?_⟩
  exact absurd (congrFun same ⟨1, by decide⟩) (by decide)

end DbEngine.Cli
