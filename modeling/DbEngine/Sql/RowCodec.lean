import DbEngine.Common.Lists
import DbEngine.Sql.Catalog

/-!
# Rows and their encoding

Which rows `EncodeRow` accepts, what it writes for them, and that `DecodeRow` reads them
back.
-/

namespace DbEngine.Sql

open Lib

/-- The bytes `EncodeRow` appends for a value. -/
def Value.bytes : Value → Bytes
  | .integer number => toLittleEndian 8 number.toUInt64.toNat
  | .text string => toLittleEndian 2 string.length ++ string

/-- How many bytes that is. -/
def Value.size : Value → Nat
  | .integer _ => 8
  | .text string => 2 + string.length

@[simp] lemma Value.length_bytes (value : Value) : value.bytes.length = value.size := by
  cases value <;> simp [Value.bytes, Value.size]

/-- The values have the columns' types, one each. -/
def WellTyped (columns : List ColumnDef) (values : List Value) : Prop :=
  List.Forall₂ (fun column value => value.type = column.type) columns values

instance (columns : List ColumnDef) (values : List Value) :
    Decidable (WellTyped columns values) :=
  inferInstanceAs (Decidable (List.Forall₂ _ columns values))

/-- The payload of a row: the bytes of every column but the first. -/
def payloadOf (row : Row) : Bytes := row.tail.flatMap Value.bytes

/-- The size of that payload. -/
def payloadSize (row : Row) : Nat := (row.tail.map Value.size).sum

lemma length_flatMap_bytes (values : List Value) :
    (values.flatMap Value.bytes).length = (values.map Value.size).sum := by
  simp [List.length_flatMap]

lemma length_payloadOf (row : Row) : (payloadOf row).length = payloadSize row :=
  length_flatMap_bytes row.tail

/-- No `TEXT` value is too long for its length prefix. -/
def TextsFit (values : List Value) : Prop := ∀ value ∈ values, value.size ≤ 2 + 0xFFFF

variable {values : List Value} {column : ColumnDef} {value : Value} {columns : List ColumnDef}
  {schema : TableSchema} {row : Row}

lemma textsFit_of_small (small : (values.map Value.size).sum ≤ MAX_VALUE_SIZE) :
    TextsFit values := by
  intro value mem
  have part : value.size ≤ (values.map Value.size).sum := List.le_sum_of_mem (mem_map_of_mem mem)
  exact le_trans part (le_trans small (by decide))

/-! ## Encoding -/

/-- A column accepts a value of its type that fits. -/
lemma encodeColumn_eq_ok (typed : value.type = column.type) (fits : value.size ≤ 2 + 0xFFFF)
    (payload : Bytes) : encodeColumn column value payload = .ok (payload ++ value.bytes) := by
  cases value with
  | integer number =>
    have integerColumn : column.type = .integer := typed.symm
    simp [encodeColumn, integerColumn, appendInteger, Value.bytes]
  | text text =>
    have textColumn : column.type = .text := typed.symm
    have short : ¬ 0xFFFF < text.length := by
      simp only [Value.size] at fits
      omega
    simp [encodeColumn, textColumn, appendText, short, Value.bytes]

/-- Any other value is refused with a `SqlException`. -/
lemma encodeColumn_error (refused : ¬ (value.type = column.type ∧ value.size ≤ 2 + 0xFFFF))
    (payload : Bytes) :
    ∃ message, encodeColumn column value payload = .error (.sqlException message) := by
  cases value with
  | integer number =>
    cases columnType : column.type with
    | integer => exact absurd ⟨columnType.symm, by simp [Value.size]⟩ refused
    | text => exact ⟨_, by simp only [encodeColumn, columnType]; rfl⟩
  | text text =>
    cases columnType : column.type with
    | integer => exact ⟨_, by simp only [encodeColumn, columnType]; rfl⟩
    | text =>
      have long : 0xFFFF < text.length := by
        by_contra short
        apply refused
        refine ⟨columnType.symm, ?_⟩
        simp only [Value.size]
        omega
      exact ⟨_, by simp only [encodeColumn, columnType, appendText, long, if_true]; rfl⟩

lemma encodeColumns_eq_ok (typed : WellTyped columns values) (fit : TextsFit values)
    (payload : Bytes) :
    encodeColumns columns values payload = .ok (payload ++ values.flatMap Value.bytes) := by
  induction typed generalizing payload with
  | nil => simp [encodeColumns]
  | @cons column value columns values typedHead typedTail ih =>
    have fitHead := fit value mem_cons_self
    have fitTail : TextsFit values := fun other mem =>
      fit other (mem_cons_of_mem _ mem)
    simp only [encodeColumns, encodeColumn_eq_ok typedHead fitHead, bind, Except.bind,
      ih fitTail, List.flatMap_cons, append_assoc]

lemma encodeColumns_error (sameLength : values.length = columns.length)
    (refused : ¬ (WellTyped columns values ∧ TextsFit values)) (payload : Bytes) :
    ∃ message, encodeColumns columns values payload = .error (.sqlException message) := by
  induction columns generalizing values payload with
  | nil =>
    have empty : values = [] := length_eq_zero_iff.mp sameLength
    subst empty
    exact absurd ⟨List.Forall₂.nil, fun _ mem => by cases mem⟩ refused
  | cons column columns ih =>
    cases values with
    | nil => cases sameLength
    | cons value values =>
      by_cases accepted : value.type = column.type ∧ value.size ≤ 2 + 0xFFFF
      · have later : ¬ (WellTyped columns values ∧ TextsFit values) := by
          intro both
          apply refused
          refine ⟨List.Forall₂.cons accepted.1 both.1, ?_⟩
          intro other mem
          rcases mem_cons.mp mem with rfl | mem
          · exact accepted.2
          · exact both.2 other mem
        obtain ⟨message, failed⟩ := ih (Nat.succ.inj sameLength) later (payload ++ value.bytes)
        refine ⟨message, ?_⟩
        simp only [encodeColumns, encodeColumn_eq_ok accepted.1 accepted.2, bind,
          Except.bind, failed]
      · obtain ⟨message, failed⟩ := encodeColumn_error accepted payload
        exact ⟨message, by simp only [encodeColumns, failed, bind, Except.bind]⟩

/-- The rows `EncodeRow` accepts besides their first value: typed, and small enough. -/
def Encodable (columns : List ColumnDef) (row : Row) : Prop :=
  row.length = columns.length ∧ WellTyped columns.tail row.tail ∧
    payloadSize row ≤ MAX_VALUE_SIZE

instance (columns : List ColumnDef) (row : Row) : Decidable (Encodable columns row) :=
  inferInstanceAs (Decidable (_ ∧ _ ∧ _))

lemma encodeRow_eq_ok (encodable : Encodable schema.columns row) :
    encodeRow schema row = .ok (payloadOf row) := by
  obtain ⟨sameLength, typed, small⟩ := encodable
  have encoded : encodeColumns schema.columns.tail row.tail [] = .ok (payloadOf row) :=
    encodeColumns_eq_ok typed (textsFit_of_small small) []
  have fits : ¬ MAX_VALUE_SIZE < (payloadOf row).length := by
    rw [length_payloadOf]
    exact not_lt.mpr small
  rw [encodeRow, if_neg (not_not.mpr sameLength), encoded]
  exact if_neg fits

lemma encodeRow_error (refused : ¬ Encodable schema.columns row) :
    ∃ message, encodeRow schema row = .error (.sqlException message) := by
  by_cases sameLength : row.length = schema.columns.length
  · have tails : row.tail.length = schema.columns.tail.length := by
      rw [List.length_tail, List.length_tail, sameLength]
    rw [encodeRow, if_neg (not_not.mpr sameLength)]
    by_cases accepted : WellTyped schema.columns.tail row.tail ∧ TextsFit row.tail
    · have encoded : encodeColumns schema.columns.tail row.tail [] = .ok (payloadOf row) :=
        encodeColumns_eq_ok accepted.1 accepted.2 []
      have large : MAX_VALUE_SIZE < (payloadOf row).length := by
        by_contra small
        rw [length_payloadOf, not_lt] at small
        exact refused ⟨sameLength, accepted.1, small⟩
      rw [encoded]
      exact ⟨_, if_pos large⟩
    · obtain ⟨message, failed⟩ := encodeColumns_error tails accepted []
      exact ⟨message, by rw [failed]⟩
  · rw [encodeRow, if_pos sameLength]
    exact ⟨_, rfl⟩

/-! ## Decoding -/

lemma readInteger_bytes (before after : Bytes) (number : Int64) :
    readInteger (before ++ ((Value.integer number).bytes ++ after)) before.length =
      .ok (number, before.length + 8) := by
  have long : ¬ (before ++ ((Value.integer number).bytes ++ after)).length <
      before.length + 8 := by
    simp [Value.size]
  have taken : ((before ++ ((Value.integer number).bytes ++ after)).drop before.length).take 8 =
      toLittleEndian 8 number.toUInt64.toNat := by
    rw [drop_left, take_left' (by simp [Value.size])]
    rfl
  have bound : number.toUInt64.toNat % 256 ^ 8 = number.toUInt64.toNat :=
    Nat.mod_eq_of_lt number.toUInt64.toNat_lt
  rw [readInteger, if_neg long, taken, ofLittleEndian_toLittleEndian, bound, UInt64.ofNat_toNat]
  rfl

lemma readText_bytes (before after text : Bytes) (fits : (Value.text text).size ≤ 2 + 0xFFFF) :
    readText (before ++ ((Value.text text).bytes ++ after)) before.length =
      .ok (text, before.length + (2 + text.length)) := by
  have whole : before ++ ((Value.text text).bytes ++ after) =
      before ++ (toLittleEndian 2 text.length ++ (text ++ after)) := by
    simp [Value.bytes]
  have second : before ++ (toLittleEndian 2 text.length ++ (text ++ after)) =
      (before ++ toLittleEndian 2 text.length) ++ (text ++ after) := by
    simp
  have offset : before.length + 2 = (before ++ toLittleEndian 2 text.length).length := by
    simp
  have length : ofLittleEndian (toLittleEndian 2 text.length) = text.length := by
    rw [ofLittleEndian_toLittleEndian]
    apply Nat.mod_eq_of_lt
    simp only [Value.size] at fits
    omega
  have prefixed : ¬ (before ++ (toLittleEndian 2 text.length ++ (text ++ after))).length <
      before.length + 2 := by
    simp only [length_append, length_toLittleEndian]
    omega
  rw [whole, readText, if_neg prefixed, drop_left, take_left' (by simp), length]
  simp only
  rw [if_neg (by simp; omega), second, offset, drop_left, take_left' rfl]
  simp [Nat.add_assoc]

lemma decodeColumns_bytes (typed : WellTyped columns values) (fit : TextsFit values)
    (before : Bytes) : decodeColumns columns (before ++ values.flatMap Value.bytes) before.length =
      .ok values := by
  induction typed generalizing before with
  | nil => rfl
  | @cons column value columns values typedHead typedTail ih =>
    have fitTail : TextsFit values := fun other mem =>
      fit other (mem_cons_of_mem _ mem)
    have rest := ih fitTail (before ++ value.bytes)
    rw [append_assoc, length_append, Value.length_bytes] at rest
    rw [List.flatMap_cons]
    cases value with
    | integer number =>
      have integerColumn : column.type = .integer := typedHead.symm
      simp only [decodeColumns, integerColumn, readInteger_bytes, bind, Except.bind]
      simp only [Value.size] at rest
      rw [rest]
      rfl
    | text text =>
      have textColumn : column.type = .text := typedHead.symm
      have fitHead := fit (.text text) mem_cons_self
      simp only [decodeColumns, textColumn, readText_bytes _ _ _ fitHead, bind, Except.bind]
      simp only [Value.size] at rest
      rw [rest]
      rfl

/-- A stored row is read back. -/
lemma decodeRow_payloadOf (encodable : Encodable schema.columns row)
    (first : row.head? = some (.integer pk)) : decodeRow schema pk (payloadOf row) = .ok row := by
  obtain ⟨_, typed, small⟩ := encodable
  have decoded := decodeColumns_bytes typed (textsFit_of_small small) []
  rw [nil_append, length_nil] at decoded
  cases row with
  | nil => cases first
  | cons head tail =>
    simp only [List.head?_cons, some.injEq] at first
    subst first
    simp only [decodeRow, payloadOf, decoded, bind, Except.bind]
    rfl

/-! ## Decoding any payload -/

lemma readInteger_eq_ok (read : readInteger payload offset = .ok (number, next)) :
    payload.drop offset = (Value.integer number).bytes ++ payload.drop next := by
  rw [readInteger] at read
  split at read
  · cases read
  next long =>
    cases read
    have size : ((payload.drop offset).take 8).length = 8 := by
      rw [length_take, length_drop]
      omega
    have bound := ofLittleEndian_lt ((payload.drop offset).take 8)
    have back := toLittleEndian_ofLittleEndian ((payload.drop offset).take 8)
    rw [size] at bound back
    rw [Value.bytes, UInt64.toUInt64_toInt64, UInt64.toNat_ofNat_of_lt' bound, back,
      ← drop_drop, take_append_drop]

lemma readText_eq_ok (read : readText payload offset = .ok (text, next)) :
    payload.drop offset = (Value.text text).bytes ++ payload.drop next := by
  simp only [readText] at read
  split at read
  · cases read
  next counted =>
    split at read
    · cases read
    next long =>
      cases read
      have size : ((payload.drop offset).take 2).length = 2 := by
        rw [length_take, length_drop]
        omega
      have back := toLittleEndian_ofLittleEndian ((payload.drop offset).take 2)
      rw [size] at back
      have whole : ((payload.drop (offset + 2)).take
          (ofLittleEndian ((payload.drop offset).take 2))).length =
          ofLittleEndian ((payload.drop offset).take 2) := by
        rw [length_take, length_drop]
        omega
      have rest := take_append_drop (ofLittleEndian ((payload.drop offset).take 2))
        (payload.drop (offset + 2))
      rw [drop_drop] at rest
      rw [Value.bytes, whole, back, append_assoc, rest, ← drop_drop, take_append_drop]

/-- A column reads a value of its type off the front of what is left, or refuses it. -/
lemma decodeColumns_cons (column : ColumnDef) (columns : List ColumnDef) (payload : Bytes)
    (offset : Nat) : (∃ message,
      decodeColumns (column :: columns) payload offset = .error (.sqlException message)) ∨
    ∃ value next, value.type = column.type ∧
      payload.drop offset = value.bytes ++ payload.drop next ∧
      decodeColumns (column :: columns) payload offset =
        (decodeColumns columns payload next).map (value :: ·) := by
  cases type : column.type with
  | integer =>
    simp only [decodeColumns, type, bind, Except.bind]
    cases read : readInteger payload offset with
    | error failure =>
      rw [readInteger] at read
      split at read <;> cases read
      exact .inl ⟨_, rfl⟩
    | ok read' => exact .inr ⟨.integer read'.1, read'.2, rfl, readInteger_eq_ok read, rfl⟩
  | text =>
    simp only [decodeColumns, type, bind, Except.bind]
    cases read : readText payload offset with
    | error failure =>
      simp only [readText] at read
      split at read
      · cases read
        exact .inl ⟨_, rfl⟩
      · split at read <;> cases read
        exact .inl ⟨_, rfl⟩
    | ok read' => exact .inr ⟨.text read'.1, read'.2, rfl, readText_eq_ok read, rfl⟩

/-- Whatever the payload, the columns read a row of their types off its front, or refuse it. -/
lemma decodeColumns_cases (columns : List ColumnDef) (payload : Bytes) (offset : Nat) :
    (∃ message, decodeColumns columns payload offset = .error (.sqlException message)) ∨
      ∃ values, decodeColumns columns payload offset = .ok values ∧ WellTyped columns values ∧
        values.flatMap Value.bytes <+: payload.drop offset := by
  induction columns generalizing offset with
  | nil => exact .inr ⟨[], rfl, .nil, List.nil_prefix⟩
  | cons column columns ih =>
    rcases decodeColumns_cons column columns payload offset with
      failed | ⟨value, next, type, front, step⟩
    · exact .inl failed
    · rw [step, front]
      rcases ih next with ⟨message, failed⟩ | ⟨values, decoded, typed, inside⟩
      · exact .inl ⟨message, by rw [failed]; rfl⟩
      · refine .inr ⟨value :: values, by rw [decoded]; rfl, .cons type typed, ?_⟩
        rw [List.flatMap_cons]
        exact (List.prefix_append_right_inj _).mpr inside

/-- With an `INTEGER` key in front, the rows that are accepted are those of the columns'
types that are small enough. -/
lemma encodable_iff (keyed : key.type = .integer) :
    Encodable (key :: columns) (.integer pk :: values) ↔
      WellTyped (key :: columns) (.integer pk :: values) ∧
        payloadSize (.integer pk :: values) ≤ MAX_VALUE_SIZE := by
  constructor
  · rintro ⟨-, typed, small⟩
    exact ⟨.cons keyed.symm typed, small⟩
  · rintro ⟨typed, small⟩
    exact ⟨typed.length_eq.symm, (List.forall₂_cons.mp typed).2, small⟩

/-- Encoding and decoding are inverse to each other, both ways: what is accepted is read back,
and what is read from any payload is what the payload begins with. -/
theorem rowCodec_round_trips {schema : TableSchema} {key : ColumnDef} {others : List ColumnDef}
    (columns : schema.columns = key :: others) (keyed : key.type = .integer) (pk : Int64) :
    (∀ row : Row, row.head? = some (.integer pk) →
      ((∃ payload, encodeRow schema row = .ok payload) ↔
        WellTyped schema.columns row ∧ payloadSize row ≤ MAX_VALUE_SIZE) ∧
      ∀ payload, encodeRow schema row = .ok payload →
        payload.length = payloadSize row ∧ decodeRow schema pk payload = .ok row) ∧
    ∀ payload : Bytes, payload.length ≤ MAX_VALUE_SIZE →
      (∃ message, decodeRow schema pk payload = .error (.sqlException message)) ∨
      ∃ row again, decodeRow schema pk payload = .ok row ∧ WellTyped schema.columns row ∧
        encodeRow schema row = .ok again ∧ again <+: payload := by
  constructor
  · intro row first
    have accepted : Encodable schema.columns row ↔
        WellTyped schema.columns row ∧ payloadSize row ≤ MAX_VALUE_SIZE := by
      cases row with
      | nil => cases first
      | cons head tail =>
        cases first
        rw [columns]
        exact encodable_iff keyed
    by_cases encodable : Encodable schema.columns row
    · have encoded := encodeRow_eq_ok encodable
      refine ⟨⟨fun _ => accepted.mp encodable, fun _ => ⟨_, encoded⟩⟩, ?_⟩
      intro payload same
      rw [encoded] at same
      cases same
      exact ⟨length_payloadOf row, decodeRow_payloadOf encodable first⟩
    · rcases encodeRow_error encodable with ⟨message, failed⟩
      rw [failed]
      exact ⟨⟨nofun, fun fits => absurd (accepted.mpr fits) encodable⟩, nofun⟩
  · intro payload small
    simp only [decodeRow, columns, List.tail_cons, bind, Except.bind]
    rcases decodeColumns_cases others payload 0 with
      ⟨message, failed⟩ | ⟨values, decoded, typed, inside⟩
    · exact .inl ⟨message, by rw [failed]⟩
    · have fits : payloadSize (.integer pk :: values) ≤ MAX_VALUE_SIZE := by
        rw [← length_payloadOf]
        exact inside.length_le.trans small
      have whole : WellTyped schema.columns (.integer pk :: values) := by
        rw [columns]
        exact .cons keyed.symm typed
      have again : encodeRow schema (.integer pk :: values) =
          .ok (payloadOf (.integer pk :: values)) := by
        apply encodeRow_eq_ok
        rw [columns]
        exact (encodable_iff keyed).mpr ⟨columns ▸ whole, fits⟩
      exact .inr ⟨_, _, by rw [decoded]; rfl, columns ▸ whole, again, inside⟩

/-- A table of a key and a text. -/
def noteSchema : TableSchema := ⟨"notes", 0, [⟨"id", .integer⟩, ⟨"note", .text⟩]⟩

theorem rowCodec_round_trips_noteSchema :
    noteSchema.columns = [⟨"id", .integer⟩, ⟨"note", .text⟩] ∧
      encodeRow noteSchema [.integer 7, .text [65]] = .ok [1, 0, 65] ∧
      decodeRow noteSchema 7 [1, 0, 65] = .ok [.integer 7, .text [65]] := by
  have trips := rowCodec_round_trips (rfl : noteSchema.columns = _) rfl 7
  exact ⟨rfl, rfl, ((trips.1 _ rfl).2 _ rfl).2⟩

end DbEngine.Sql
