import DbEngine.Lib.Layers
import DbEngine.Lsm.BloomFilter

/-!
# Memtables and SSTables

`lsm/lsm_value.h`, `lsm/memtable.h`, `lsm/sstable.h`.  The skip list of a memtable is taken
as the sorted map it implements, and the pages of an SSTable as the entries they hold.
-/

namespace DbEngine.Lsm

open Lib

/-- `LSMValue`.  The number of the write that an entry comes from is for the proofs; the
engine never looks at it. -/
structure LSMValue where
  value : Bytes := []
  deleted : Bool := false
  number : Nat
  deriving Repr, DecidableEq

/-- The value is not a tombstone. -/
def LSMValue.live (entry : LSMValue) : Bool := !entry.deleted

abbrev Entries := SortedMap KeyType LSMValue

/-- What a client gets to see of an entry. -/
def LSMValue.shown (entry : Option LSMValue) : Option Bytes :=
  (entry.filter LSMValue.live).map LSMValue.value

/-- `MemTable`. -/
structure MemTable where
  list : Entries := .empty
  approximateSizeBytes : Nat := 0

namespace MemTable

/-- `sizeof(KeyType)`. -/
def keySize : Nat := 8

/-- `MemTable::Put` and `MemTable::Delete`. -/
def write (table : MemTable) (key : KeyType) (entry : LSMValue) : MemTable where
  list := table.list.insert key entry
  approximateSizeBytes := table.approximateSizeBytes + keySize + entry.value.length

/-- `MemTable::EntryCount`. -/
def entryCount (table : MemTable) : Nat := table.list.entries.length

end MemTable

/-- The sizes that the constructor of `BloomFilter` computes in floating point. -/
structure BloomSizing where
  numBits : Nat → Nat
  numHashes : Nat → Nat
  positive : ∀ expectedKeys, 0 < numBits expectedKeys

/-- `SSTable`.  Its filter answers true to every key of the table. -/
structure SSTable where
  id : Nat
  entries : Entries
  bloom : BloomFilter
  covers : ∀ {key entry}, entries.lookup key = some entry → bloom.mightContain key = true

namespace SSTable

/-- `SSTable::Build` and `SSTable::Open`. -/
def build (sizing : BloomSizing) (id : Nat) (entries : Entries) : SSTable where
  id
  entries
  bloom :=
    let expectedKeys := max entries.entries.length 1
    (entries.entries.map Prod.fst).foldl BloomFilter.add
      (.empty (sizing.numBits expectedKeys) (sizing.numHashes expectedKeys)
        (sizing.positive expectedKeys))
  covers := by
    intro key entry found
    apply BloomFilter.mightContain_foldl_add
    exact mem_map_of_mem (SortedMap.lookup_eq_some.mp found)

/-- `SSTable::MinKey`. -/
def minKey (table : SSTable) : Option KeyType := table.entries.entries.head?.map Prod.fst

/-- `SSTable::MaxKey`. -/
def maxKey (table : SSTable) : Option KeyType := table.entries.entries.getLast?.map Prod.fst

/-- `SSTable::MightContain`. -/
def mightContain (table : SSTable) (key : KeyType) : Bool :=
  if table.minKey.any (fun least => decide (least ≤ key)) &&
      table.maxKey.any (fun greatest => decide (key ≤ greatest)) then
    table.bloom.mightContain key
  else false

/-- `SSTable::Get`. -/
def get (table : SSTable) (key : KeyType) : Option LSMValue :=
  if table.mightContain key then table.entries.lookup key else none

/-- The entries that `SSTable::NewIterator` delivers. -/
def newIterator (table : SSTable) (start : KeyType) : List (KeyType × LSMValue) :=
  if table.maxKey.any (fun greatest => decide (start ≤ greatest)) then
    table.entries.entries.dropWhile fun entry => decide (entry.1 < start)
  else []

/-! ## Reading a table -/

variable {table : SSTable} {entry : KeyType × LSMValue}

lemma minKey_le (mem : entry ∈ table.entries.entries) :
    ∃ least, table.minKey = some least ∧ least ≤ entry.1 := by
  have ascending := table.entries.ascending
  rw [minKey]
  cases listed : table.entries.entries with
  | nil =>
    rw [listed] at mem
    cases mem
  | cons first rest =>
    rw [listed] at mem ascending
    refine ⟨first.1, rfl, ?_⟩
    rcases mem_cons.mp mem with rfl | mem
    · exact le_rfl
    · exact ((ascending_cons.mp ascending).1 entry mem).le

lemma le_maxKey (mem : entry ∈ table.entries.entries) :
    ∃ greatest, table.maxKey = some greatest ∧ entry.1 ≤ greatest := by
  have ascending := table.entries.ascending
  rw [maxKey]
  rcases eq_nil_or_concat table.entries.entries with none | ⟨before, last, listed⟩
  · rw [none] at mem
    cases mem
  · rw [listed, concat_eq_append] at mem ascending
    rw [listed, concat_eq_append]
    refine ⟨last.1, by simp, ?_⟩
    rcases mem_append.mp mem with mem | mem
    · exact ((ascending_append.mp ascending).2.2 entry mem last (mem_singleton_self _)).le
    · rw [mem_singleton.mp mem]

lemma get_eq (table : SSTable) (key : KeyType) : table.get key = table.entries.lookup key := by
  rw [get]
  cases found : table.entries.lookup key with
  | none => exact ite_self _
  | some entry =>
    apply if_pos
    have mem := SortedMap.lookup_eq_some.mp found
    obtain ⟨least, isMin, low⟩ := minKey_le mem
    obtain ⟨greatest, isMax, high⟩ := le_maxKey mem
    have low : least ≤ key := low
    have high : key ≤ greatest := high
    simp [mightContain, isMin, isMax, low, high, table.covers found]

lemma newIterator_eq (table : SSTable) (start : KeyType) :
    table.newIterator start = table.entries.entriesFrom start := by
  rw [newIterator, table.entries.ascending.dropWhile_lt]
  split
  · rfl
  next past =>
    symm
    rw [SortedMap.entriesFrom, filter_eq_nil_iff]
    intro entry mem
    obtain ⟨greatest, isMax, high⟩ := le_maxKey mem
    rw [isMax] at past
    simp only [any_some, decide_eq_true_eq, not_le] at past ⊢
    exact high.trans_lt past

end SSTable

end DbEngine.Lsm
