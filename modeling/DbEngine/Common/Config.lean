import Mathlib

/-!
# Shared configuration

Keys, values and page ids, as `common/config.h` fixes them for every engine.
Keys are signed 64-bit integers compared as such; values are byte strings capped
at `MAX_VALUE_SIZE`.
-/

namespace DbEngine

/-- The signed order of `int64_t`, bundled so that order lemmas apply to keys. -/
instance keyLinearOrder : LinearOrder Int64 where
  le_refl := Int64.le_refl
  le_trans _ _ _ := Int64.le_trans
  le_antisymm _ _ := Int64.le_antisymm
  le_total := Int64.le_total
  lt_iff_le_not_ge left right := by
    rw [Int64.lt_iff_toInt_lt, Int64.le_iff_toInt_le, Int64.le_iff_toInt_le]
    omega
  toDecidableLE := inferInstance
  toDecidableEq := inferInstance
  toDecidableLT := inferInstance

/-- Bytes compare as unsigned numbers, as `std::string` compares them. -/
instance byteLinearOrder : LinearOrder UInt8 where
  le_refl := UInt8.le_refl
  le_trans _ _ _ := UInt8.le_trans
  le_antisymm _ _ := UInt8.le_antisymm
  le_total := UInt8.le_total
  lt_iff_le_not_ge left right := by
    rw [UInt8.lt_iff_toNat_lt, UInt8.le_iff_toNat_le, UInt8.le_iff_toNat_le]
    omega
  toDecidableLE := inferInstance
  toDecidableEq := inferInstance
  toDecidableLT := inferInstance

/-- `KeyType`: one fixed-size key type across every storage engine. -/
abbrev KeyType := Int64

/-- A byte string (`std::string`). -/
abbrev Bytes := List UInt8

/-- `INVALID_KEY`, the smallest representable key. -/
def INVALID_KEY : KeyType := Int64.minValue

/-- `PAGE_SIZE`. -/
def PAGE_SIZE : Nat := 4096

/-- `MAX_VALUE_SIZE`. -/
def MAX_VALUE_SIZE : Nat := 64

lemma INVALID_KEY_le (key : KeyType) : INVALID_KEY ≤ key :=
  Int64.minValue_le key

end DbEngine
