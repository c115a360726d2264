import DbEngine.Common.Lists
import DbEngine.Common.Config

/-!
# Bloom filters

`lsm/bloom_filter.cpp`.  The two constructors that size a filter use floating point; here
a filter of any size is taken, and what matters is that the byte array fits the number of
bits.
-/

namespace DbEngine.Lsm

/-- `BloomFilter::Mix`. -/
def mix (x seed : UInt64) : UInt64 :=
  let x := x ^^^ seed
  let x := x + 0x9E3779B97F4A7C15
  let x := (x ^^^ (x >>> 30)) * 0xBF58476D1CE4E5B9
  let x := (x ^^^ (x >>> 27)) * 0x94D049BB133111EB
  x ^^^ (x >>> 31)

/-- `BloomFilter`. -/
structure BloomFilter where
  bits : List UInt8
  numBits : Nat
  numHashes : Nat
  positive : 0 < numBits
  length : bits.length = (numBits + 7) / 8

namespace BloomFilter

/-- A filter with no key. -/
def empty (numBits numHashes : Nat) (positive : 0 < numBits) : BloomFilter where
  bits := replicate ((numBits + 7) / 8) 0
  numBits
  numHashes
  positive
  length := List.length_replicate

/-- `BloomFilter::BitIndex` of a key's `i`-th hash. -/
def bitIndex (filter : BloomFilter) (key : KeyType) (i : Nat) : Nat :=
  let h1 := mix key.toUInt64 0x9E3779B97F4A7C15
  let h2 := mix key.toUInt64 0xC2B2AE3D27D4EB4F
  (h1 + UInt64.ofNat i * h2).toNat % filter.numBits

/-- The mask of a bit in its byte. -/
def mask (bit : Nat) : UInt8 := 1 <<< UInt8.ofNat (bit % 8)

/-- Set a bit. -/
def setBit (bits : List UInt8) (bit : Nat) : List UInt8 :=
  bits.modify (bit / 8) fun byte => byte ||| mask bit

/-- Whether a bit is set. -/
def testBit (bits : List UInt8) (bit : Nat) : Bool :=
  bits.getD (bit / 8) 0 &&& mask bit != 0

lemma length_foldl_setBit (indices : List Nat) (bits : List UInt8) :
    (indices.foldl setBit bits).length = bits.length := by
  induction indices generalizing bits with
  | nil => rfl
  | cons bit rest ih => exact (ih _).trans (List.length_modify ..)

/-- `BloomFilter::Add`. -/
def add (filter : BloomFilter) (key : KeyType) : BloomFilter where
  bits := ((range filter.numHashes).map (filter.bitIndex key)).foldl setBit filter.bits
  numBits := filter.numBits
  numHashes := filter.numHashes
  positive := filter.positive
  length := (length_foldl_setBit _ _).trans filter.length

/-- `BloomFilter::MightContain`. -/
def mightContain (filter : BloomFilter) (key : KeyType) : Bool :=
  (range filter.numHashes).all fun i => testBit filter.bits (filter.bitIndex key i)

/-! ## No false negatives -/

lemma mask_ne_zero (bit : Nat) : mask bit ≠ 0 := by
  have every : ∀ shift : Fin 8, (1 : UInt8) <<< UInt8.ofNat shift.val ≠ 0 := by decide
  exact every ⟨bit % 8, Nat.mod_lt _ (by decide)⟩

lemma or_and_eq_zero {byte extra mask : UInt8} (zero : (byte ||| extra) &&& mask = 0) :
    byte &&& mask = 0 ∧ extra &&& mask = 0 := by
  have distrib : (byte ||| extra) &&& mask = byte &&& mask ||| extra &&& mask := by
    apply UInt8.eq_of_toBitVec_eq
    ext i
    simp [Bool.and_or_distrib_right]
  rw [distrib] at zero
  exact UInt8.or_eq_zero_iff.mp zero

lemma getD_setBit (bits : List UInt8) (bit index : Nat) :
    (setBit bits bit).getD index 0 = bits.getD index 0 ∨
      (setBit bits bit).getD index 0 = bits.getD index 0 ||| mask bit := by
  simp only [setBit, getD_eq_getElem?_getD, List.getElem?_modify]
  cases bits[index]? with
  | none => exact .inl rfl
  | some byte =>
    by_cases same : bit / 8 = index
    · simp [same]
    · simp [same]

variable {bits : List UInt8} {bit : Nat} {key : KeyType}

/-- Setting a bit keeps the others. -/
lemma testBit_setBit (other : Nat) (before : testBit bits bit = true) :
    testBit (setBit bits other) bit = true := by
  rw [testBit, bne_iff_ne] at before ⊢
  intro zero
  apply before
  rcases getD_setBit bits other (bit / 8) with same | added
  · rw [← same]
    exact zero
  · rw [added] at zero
    exact (or_and_eq_zero zero).1

lemma testBit_setBit_self (inside : bit / 8 < bits.length) :
    testBit (setBit bits bit) bit = true := by
  have byte : (setBit bits bit).getD (bit / 8) 0 = bits.getD (bit / 8) 0 ||| mask bit := by
    simp [setBit, getD_eq_getElem?_getD, inside]
  rw [testBit, bne_iff_ne, byte]
  intro zero
  apply mask_ne_zero bit
  rw [← (or_and_eq_zero zero).2, UInt8.and_self]

lemma testBit_foldl_setBit (indices : List Nat) (before : testBit bits bit = true) :
    testBit (indices.foldl setBit bits) bit = true := by
  induction indices generalizing bits with
  | nil => exact before
  | cons other rest ih => exact ih (testBit_setBit other before)

lemma testBit_foldl_setBit_of_mem {indices : List Nat} (mem : bit ∈ indices)
    (inside : bit / 8 < bits.length) : testBit (indices.foldl setBit bits) bit = true := by
  induction indices generalizing bits with
  | nil => cases mem
  | cons other rest ih =>
    rcases mem_cons.mp mem with same | mem
    · subst same
      exact testBit_foldl_setBit rest (testBit_setBit_self inside)
    · apply ih mem
      rw [setBit, List.length_modify]
      exact inside

lemma bitIndex_lt (filter : BloomFilter) (key : KeyType) (i : Nat) :
    filter.bitIndex key i < filter.numBits :=
  Nat.mod_lt _ filter.positive

/-- The byte of a bit is inside the array. -/
lemma bitIndex_inside (filter : BloomFilter) (key : KeyType) (i : Nat) :
    filter.bitIndex key i / 8 < filter.bits.length := by
  have bound := bitIndex_lt filter key i
  rw [filter.length]
  omega

lemma mightContain_add (filter : BloomFilter) (key : KeyType) :
    (filter.add key).mightContain key = true := by
  rw [mightContain, all_eq_true]
  intro i inRange
  apply testBit_foldl_setBit_of_mem
  · exact mem_map_of_mem inRange
  · exact filter.bitIndex_inside key i

lemma mightContain_add_of {filter : BloomFilter} (other : KeyType)
    (before : filter.mightContain key = true) : (filter.add other).mightContain key = true := by
  rw [mightContain, all_eq_true] at before ⊢
  intro i inRange
  exact testBit_foldl_setBit _ (before i inRange)

/-- A filter that was given some keys answers true to each of them. -/
lemma mightContain_foldl_add (filter : BloomFilter) {keys : List KeyType} (mem : key ∈ keys) :
    (keys.foldl add filter).mightContain key = true := by
  have kept : ∀ (keys : List KeyType) (filter : BloomFilter), filter.mightContain key = true →
      (keys.foldl add filter).mightContain key = true := by
    intro keys
    induction keys with
    | nil => exact fun _ before => before
    | cons other rest ih => exact fun filter before => ih _ (mightContain_add_of other before)
  induction keys generalizing filter with
  | nil => cases mem
  | cons other rest ih =>
    rcases mem_cons.mp mem with same | mem
    · subst same
      exact kept rest _ (mightContain_add filter key)
    · exact ih _ mem

/-- No added key is denied, no bit lies outside the array, and the bytes, the number of bits
and the number of hashes are all that the answers depend on. -/
theorem no_false_negatives (filter : BloomFilter) (keys : List KeyType) :
    (∀ key ∈ keys, (keys.foldl add filter).mightContain key = true) ∧
    (∀ key i, (keys.foldl add filter).bitIndex key i / 8 < (keys.foldl add filter).bits.length) ∧
    ∀ rebuilt : BloomFilter, rebuilt.bits = (keys.foldl add filter).bits →
      rebuilt.numBits = (keys.foldl add filter).numBits →
      rebuilt.numHashes = (keys.foldl add filter).numHashes →
      ∀ key, rebuilt.mightContain key = (keys.foldl add filter).mightContain key := by
  refine ⟨fun key mem => mightContain_foldl_add filter mem, bitIndex_inside _, ?_⟩
  intro rebuilt sameBits sameSize sameHashes key
  simp only [mightContain, bitIndex, sameBits, sameSize, sameHashes]

end BloomFilter

end DbEngine.Lsm
