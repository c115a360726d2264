import DbEngine.Sql.Catalog

/-!
# Key packing

The engine key of a row as a number: the table id in the upper 16 bits, the primary key
in the lower 48.  Read as a signed integer the keys of one table stay contiguous, and
within a table they are ordered by primary key.
-/

namespace DbEngine.Sql

/-- The 64 bits of a key as a number. -/
def keyBits (key : KeyType) : Nat := key.toBitVec.toNat

lemma keyBits_lt (key : KeyType) : keyBits key < 2 ^ 64 := key.toBitVec.isLt

variable {left right : KeyType}

lemma keyBits_inj (same : keyBits left = keyBits right) : left = right := by
  apply Int64.toBitVec_inj.mp
  exact BitVec.eq_of_toNat_eq same

/-- The signed value of a key. -/
lemma toInt_eq_keyBits (key : KeyType) :
    key.toInt = if keyBits key < 2 ^ 63 then (keyBits key : Int)
      else (keyBits key : Int) - 2 ^ 64 := by
  have signed : key.toInt = key.toBitVec.toInt := rfl
  rw [signed, BitVec.toInt_eq_toNat_cond]
  unfold keyBits
  split <;> split <;> omega

lemma keyBits_kMaxRowKey : keyBits kMaxRowKey = 2 ^ 48 - 1 := by decide

lemma keyBits_encodeKey (tableId : UInt16) (pk : Int64) :
    keyBits (encodeKey tableId pk) = tableId.toNat * 2 ^ 48 + keyBits pk % 2 ^ 48 := by
  have low : keyBits pk % 2 ^ 48 < 2 ^ 48 := Nat.mod_lt _ (by decide)
  have masked : (pk &&& kMaxRowKey).toBitVec.toNat = keyBits pk % 2 ^ 48 := by
    rw [Int64.toBitVec_and, BitVec.toNat_and]
    exact (congrArg (keyBits pk &&& ·) keyBits_kMaxRowKey).trans
      (Nat.and_two_pow_sub_one_eq_mod _ _)
  have high : (tableId.toUInt64.toInt64 <<< Int64.ofNat kRowKeyBits).toBitVec.toNat =
      tableId.toNat <<< 48 := by
    change (_ <<< (48 : Int64)).toBitVec.toNat = _
    have small := tableId.toNat_lt
    rw [Int64.toBitVec_shiftLeft]
    simp [Nat.shiftLeft_eq]
    omega
  rw [keyBits, encodeKey, Int64.toBitVec_or, BitVec.toNat_or, masked, high,
    ← Nat.shiftLeft_add_eq_or_of_lt low, Nat.shiftLeft_eq]

lemma keyBits_decodeRowKey (key : KeyType) : keyBits (decodeRowKey key) = keyBits key % 2 ^ 48 := by
  rw [keyBits, decodeRowKey, Int64.toBitVec_and, BitVec.toNat_and]
  exact (congrArg (keyBits key &&& ·) keyBits_kMaxRowKey).trans (Nat.and_two_pow_sub_one_eq_mod _ _)

lemma toNat_decodeTableId (key : KeyType) : (decodeTableId key).toNat = keyBits key / 2 ^ 48 := by
  have bound := keyBits_lt key
  have bits : key.toUInt64.toNat = keyBits key := rfl
  rw [decodeTableId, UInt64.toNat_toUInt16, UInt64.toNat_and, UInt64.toNat_shiftRight, bits]
  have mask : (UInt64.ofNat (kMaxTables - 1)).toNat = 2 ^ 16 - 1 := rfl
  have shift : (UInt64.ofNat kRowKeyBits).toNat % 64 = 48 := rfl
  rw [mask, shift, Nat.and_two_pow_sub_one_eq_mod, Nat.shiftRight_eq_div_pow]
  omega

/-! ## Primary keys -/

/-- The primary keys a row may have. -/
def InRange (pk : Int64) : Prop := 0 ≤ pk ∧ pk ≤ kMaxRowKey

instance (pk : Int64) : Decidable (InRange pk) := inferInstanceAs (Decidable (_ ∧ _))

lemma inRange_iff (pk : Int64) : InRange pk ↔ keyBits pk < 2 ^ 48 := by
  have bound := keyBits_lt pk
  have zero : (0 : Int64).toInt = 0 := rfl
  have most : kMaxRowKey.toInt = 2 ^ 48 - 1 := by decide
  rw [InRange, Int64.le_iff_toInt_le, Int64.le_iff_toInt_le, zero, most, toInt_eq_keyBits]
  split <;> omega

lemma inRange_decodeRowKey (key : KeyType) : InRange (decodeRowKey key) := by
  rw [inRange_iff, keyBits_decodeRowKey]
  exact Nat.mod_lt _ (by decide)

@[simp] lemma decodeTableId_encodeKey (tableId : UInt16) (pk : Int64) :
    decodeTableId (encodeKey tableId pk) = tableId := by
  apply UInt16.toNat_inj.mp
  rw [toNat_decodeTableId, keyBits_encodeKey]
  omega

lemma decodeRowKey_encodeKey (tableId : UInt16) {pk : Int64} (inRange : InRange pk) :
    decodeRowKey (encodeKey tableId pk) = pk := by
  rw [inRange_iff] at inRange
  apply keyBits_inj
  rw [keyBits_decodeRowKey, keyBits_encodeKey]
  omega

lemma encodeKey_decode (key : KeyType) :
    encodeKey (decodeTableId key) (decodeRowKey key) = key := by
  apply keyBits_inj
  rw [keyBits_encodeKey, keyBits_decodeRowKey, toNat_decodeTableId]
  omega

lemma encodeKey_inj (tableId : UInt16) {left right : Int64} (leftRange : InRange left)
    (rightRange : InRange right) (same : encodeKey tableId left = encodeKey tableId right) :
    left = right := by
  rw [← decodeRowKey_encodeKey tableId leftRange, same, decodeRowKey_encodeKey tableId rightRange]

/-! ## Order -/

lemma le_iff_keyBits : left ≤ right ↔
      (if keyBits left < 2 ^ 63 then (keyBits left : Int) else (keyBits left : Int) - 2 ^ 64) ≤
      (if keyBits right < 2 ^ 63 then (keyBits right : Int)
        else (keyBits right : Int) - 2 ^ 64) := by
  rw [Int64.le_iff_toInt_le, toInt_eq_keyBits, toInt_eq_keyBits]

/-- Within a table, keys are ordered as their primary keys. -/
lemma le_iff_of_sameTable (same : decodeTableId left = decodeTableId right) :
    left ≤ right ↔ decodeRowKey left ≤ decodeRowKey right := by
  have sameId := congrArg UInt16.toNat same
  rw [toNat_decodeTableId, toNat_decodeTableId] at sameId
  have leftBound := keyBits_lt left
  have rightBound := keyBits_lt right
  rw [le_iff_keyBits, le_iff_keyBits, keyBits_decodeRowKey, keyBits_decodeRowKey]
  split <;> split <;> split <;> split <;> omega

lemma lt_iff_of_sameTable (same : decodeTableId left = decodeTableId right) :
    left < right ↔ decodeRowKey left < decodeRowKey right := by
  rw [← not_le, ← not_le, le_iff_of_sameTable same.symm]

/-- The keys of a table are contiguous. -/
lemma decodeTableId_of_between {low key high : KeyType} (above : low ≤ key)
    (below : key ≤ high) (same : decodeTableId low = decodeTableId high) :
    decodeTableId key = decodeTableId high := by
  have sameId := congrArg UInt16.toNat same
  rw [toNat_decodeTableId, toNat_decodeTableId] at sameId
  have lowBound := keyBits_lt low
  have keyBound := keyBits_lt key
  have highBound := keyBits_lt high
  rw [le_iff_keyBits] at above below
  apply UInt16.toNat_inj.mp
  rw [toNat_decodeTableId, toNat_decodeTableId]
  split at above <;> split at above <;> split at below <;> omega

end DbEngine.Sql
