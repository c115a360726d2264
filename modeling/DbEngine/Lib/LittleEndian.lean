import Mathlib

/-!
# Fixed-width little-endian numbers

The bytes that copying an integer of a fixed width out of memory gives, and back.
-/

namespace DbEngine.Lib

/-- The lowest `width` bytes of a number, least significant first. -/
def toLittleEndian : Nat → Nat → List UInt8
  | 0, _ => []
  | width + 1, number => UInt8.ofNat number :: toLittleEndian width (number / 256)

/-- The number a byte list stands for. -/
def ofLittleEndian : List UInt8 → Nat
  | [] => 0
  | byte :: rest => byte.toNat + 256 * ofLittleEndian rest

@[simp] lemma length_toLittleEndian (width number : Nat) :
    (toLittleEndian width number).length = width := by
  induction width generalizing number with
  | zero => rfl
  | succ width ih => simp [toLittleEndian, ih]

lemma ofLittleEndian_toLittleEndian (width number : Nat) :
    ofLittleEndian (toLittleEndian width number) = number % 256 ^ width := by
  induction width generalizing number with
  | zero => simp [toLittleEndian, ofLittleEndian, Nat.mod_one]
  | succ width ih =>
    have byte : (UInt8.ofNat number).toNat = number % 256 := by simp
    rw [toLittleEndian, ofLittleEndian, ih, byte, Nat.pow_succ', Nat.mod_mul]

lemma ofLittleEndian_lt (bytes : List UInt8) : ofLittleEndian bytes < 256 ^ bytes.length := by
  induction bytes with
  | nil => exact Nat.one_pos
  | cons byte rest ih =>
    have small := byte.toNat_lt
    rw [ofLittleEndian, List.length_cons, Nat.pow_succ']
    omega

lemma toLittleEndian_ofLittleEndian (bytes : List UInt8) :
    toLittleEndian bytes.length (ofLittleEndian bytes) = bytes := by
  induction bytes with
  | nil => rfl
  | cons byte rest ih =>
    have small := byte.toNat_lt
    have low : UInt8.ofNat (byte.toNat + 256 * ofLittleEndian rest) = byte := by
      apply UInt8.toNat_inj.mp
      rw [UInt8.toNat_ofNat']
      omega
    have high : (byte.toNat + 256 * ofLittleEndian rest) / 256 = ofLittleEndian rest := by
      omega
    rw [List.length_cons, ofLittleEndian, toLittleEndian, low, high, ih]

end DbEngine.Lib
