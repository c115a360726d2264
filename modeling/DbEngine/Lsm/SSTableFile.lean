import DbEngine.Lib.PackedPage
import DbEngine.Lsm.Tables
import DbEngine.Storage.DiskManager

/-!
# The file of an SSTable

`lsm/sstable.cpp` page by page: data pages, then the pages of the sparse index and of the
Bloom filter, and last the header, whose page comes first.  A page is the struct that was
written to it; a page that was never written reads as zeros, and bytes of one struct are
never read as another.  The table's own buffer pool shows the pages of the file.
-/

namespace DbEngine.Lsm.TableFile

open Lib Storage

/-- `LSMValue`, without the number that the proofs about the engine give it. -/
structure StoredValue where
  value : Bytes
  deleted : Bool
  deriving Repr, DecidableEq

abbrev Entry := KeyType × StoredValue

/-- `DataEntry`. -/
structure DataEntry where
  key : KeyType
  deleted : UInt8
  valueLen : UInt16
  value : Vector UInt8 MAX_VALUE_SIZE
  deriving Repr, DecidableEq

namespace DataEntry

instance : Zero DataEntry where
  zero := { key := 0, deleted := 0, valueLen := 0, value := Vector.replicate MAX_VALUE_SIZE 0 }

/-- The assignments to a slot of a zeroed page. -/
def ofEntry (entry : Entry) : DataEntry where
  key := entry.1
  deleted := if entry.2.deleted then 1 else 0
  valueLen := UInt16.ofNat entry.2.value.length
  value := overwrite (Vector.replicate MAX_VALUE_SIZE 0) entry.2.value

/-- The value that a reader takes from a slot. -/
def stored (entry : DataEntry) : StoredValue where
  value := entry.value.toList.take entry.valueLen.toNat
  deleted := entry.deleted != 0

end DataEntry

/-- `sizeof(DataEntry)`: a key, a flag, a 16-bit length and the value, padded to a multiple
of eight. -/
def dataEntrySize : Nat := 80

/-- `kMaxEntriesPerDataPage`. -/
def maxEntriesPerDataPage : Nat := (PAGE_SIZE - 8) / dataEntrySize

/-- `DataPage`. -/
abbrev DataPage := PackedPage DataEntry maxEntriesPerDataPage

/-- `IndexEntry`. -/
structure IndexEntry where
  firstKey : KeyType
  pageId : Int
  deriving Repr, DecidableEq

instance : Zero IndexEntry where
  zero := { firstKey := 0, pageId := 0 }

/-- `kMaxIndexEntriesPerPage`. -/
def maxIndexEntriesPerPage : Nat := (PAGE_SIZE - 8) / 16

/-- `IndexPage`. -/
abbrev IndexPage := PackedPage IndexEntry maxIndexEntriesPerPage

/-- `HeaderPage`. -/
structure HeaderPage where
  numEntries : Nat := 0
  minKey : KeyType := 0
  maxKey : KeyType := 0
  numDataPages : Int32 := 0
  firstDataPageId : Int := 0
  numIndexEntries : Int := 0
  firstIndexPageId : Int := 0
  bloomNumBytes : Nat := 0
  bloomNumBits : Nat := 0
  bloomNumHashes : Nat := 0
  firstBloomPageId : Int := 0
  deriving Repr, DecidableEq

/-- `char buf[PAGE_SIZE]`. -/
abbrev RawPage := Vector UInt8 PAGE_SIZE

/-- What a page of the file holds. -/
inductive FilePage where
  | zero
  | header (page : HeaderPage)
  | data (page : DataPage)
  | index (page : IndexPage)
  | bloom (page : RawPage)

namespace FilePage

instance : Zero FilePage where
  zero := .zero

/-- A page read as a `HeaderPage`. -/
def asHeader : FilePage → Option HeaderPage
  | .zero => some {}
  | .header page => some page
  | _ => none

/-- A page read as a `DataPage`. -/
def asData : FilePage → Option DataPage
  | .zero => some 0
  | .data page => some page
  | _ => none

/-- A page read as an `IndexPage`. -/
def asIndex : FilePage → Option IndexPage
  | .zero => some 0
  | .index page => some page
  | _ => none

/-- A page read as bytes of the filter. -/
def asBloom : FilePage → Option RawPage
  | .zero => some (Vector.replicate PAGE_SIZE 0)
  | .bloom page => some page
  | _ => none

end FilePage

/-! ## Writing -/

section

variable {α : Type}

/-- The three loops of `Build`: a new page for the next items as long as there are any.  With
each page comes its first item.  A page takes at least one item, so the fuel lasts. -/
def writePages (pack : List α → FilePage × List α) :
    Nat → DiskManager FilePage → List α → DiskManager FilePage × List (α × Nat)
  | fuel + 1, disk, first :: rest =>
    let pageId := disk.allocatePage.1
    let packed := pack (first :: rest)
    let written := writePages pack fuel (disk.allocatePage.2.writePage pageId packed.1) packed.2
    (written.1, (first, pageId) :: written.2)
  | _, disk, _ => (disk, [])

/-- The id of the first page that was written, `INVALID_PAGE_ID` if there is none. -/
def firstPageId (written : List (α × Nat)) : Int :=
  match written with
  | [] => -1
  | first :: _ => first.2

end

/-- A data page from the next entries. -/
def packData (entries : List Entry) : FilePage × List Entry :=
  let page : DataPage := 0
  let filled := page.fill (entries.map DataEntry.ofEntry)
  (.data filled.1, entries.drop filled.1.count)

/-- An index page from the next index entries. -/
def packIndex (entries : List IndexEntry) : FilePage × List IndexEntry :=
  let page : IndexPage := 0
  let filled := page.fill entries
  (.index filled.1, filled.2)

/-- A page with the next bytes of the filter. -/
def packBloom (bytes : List UInt8) : FilePage × List UInt8 :=
  let chunk := min bytes.length PAGE_SIZE
  (.bloom (overwrite (Vector.replicate PAGE_SIZE 0) (bytes.take chunk)), bytes.drop chunk)

/-- The filter with the keys of the entries. -/
def buildBloom (sizing : BloomSizing) (entries : List Entry) : BloomFilter :=
  let expectedKeys := max entries.length 1
  (entries.map Prod.fst).foldl BloomFilter.add
    (.empty (sizing.numBits expectedKeys) (sizing.numHashes expectedKeys)
      (sizing.positive expectedKeys))

/-- `SSTable::Build` on what is at its path; `none` where a value is too long.  No page has
been written then. -/
def build (sizing : BloomSizing) (file : List FilePage) (entries : List Entry) :
    Option (List FilePage) :=
  let header := (DiskManager.open file).allocatePage
  if entries.any fun entry => decide (MAX_VALUE_SIZE < entry.2.value.length) then none
  else
    let bloom := buildBloom sizing entries
    let data := writePages packData entries.length header.2 entries
    let index := data.2.map fun page => { firstKey := page.1.1, pageId := page.2 }
    let indexPages := writePages packIndex index.length data.1 index
    let bloomPages := writePages packBloom bloom.bits.length indexPages.1 bloom.bits
    some (bloomPages.1.writePage header.1 (.header
      { numEntries := entries.length
        minKey := (entries.head?.map Prod.fst).getD 0
        maxKey := (entries.getLast?.map Prod.fst).getD 0
        numDataPages := Int32.ofNat data.2.length
        firstDataPageId := firstPageId data.2
        numIndexEntries := index.length
        firstIndexPageId := firstPageId indexPages.2
        bloomNumBytes := bloom.bits.length
        bloomNumBits := bloom.numBits
        bloomNumHashes := bloom.numHashes
        firstBloomPageId := firstPageId bloomPages.2 })).file

/-! ## Opening -/

/-- `ReadPage`; a negative id is an error. -/
def fetch (file : List FilePage) (pageId : Int) : Option FilePage :=
  if 0 ≤ pageId then some (readFile file pageId.toNat) else none

/-- The loop of `Open` over the index pages.  Past the end of the file every page is empty
and the loop would not end. -/
def readIndex (file : List FilePage) : Nat → Int → Int → Option (List IndexEntry)
  | fuel, remaining, pageId =>
    if 0 < remaining then
      match fuel with
      | 0 => none
      | fuel + 1 => do
        let page ← (← fetch file pageId).asIndex
        let rest ← readIndex file fuel (remaining - page.count) (pageId + 1)
        return page.items ++ rest
    else some []

/-- The loop of `Open` over the pages of the filter. -/
def readBloom (file : List FilePage) : Nat → Nat → Int → Option (List UInt8)
  | fuel + 1, remaining + 1, pageId => do
    let page ← (← fetch file pageId).asBloom
    let chunk := min (remaining + 1) PAGE_SIZE
    let rest ← readBloom file fuel (remaining + 1 - chunk) (pageId + 1)
    return page.toList.take chunk ++ rest
  | _, _, _ => some []

/-- `SSTable`. -/
structure OpenTable where
  file : List FilePage
  numEntries : Nat
  minKey : KeyType
  maxKey : KeyType
  numDataPages : Int32
  firstDataPageId : Int
  sparseIndex : List IndexEntry
  /-- There is none if the bytes do not fit the number of bits. -/
  bloom : Option BloomFilter

/-- The constructor of `BloomFilter` that takes the bytes. -/
def ofBytes (bytes : List UInt8) (numBits numHashes : Nat) : Option BloomFilter :=
  if valid : 0 < numBits ∧ bytes.length = (numBits + 7) / 8 then
    some { bits := bytes, numBits, numHashes, positive := valid.1, length := valid.2 }
  else none

/-- `SSTable::Open`. -/
def «open» (file : List FilePage) : Option OpenTable := do
  let header ← (readFile file 0).asHeader
  let sparseIndex ← readIndex file file.length header.numIndexEntries header.firstIndexPageId
  let bytes ← readBloom file header.bloomNumBytes header.bloomNumBytes header.firstBloomPageId
  return {
    file
    numEntries := header.numEntries
    minKey := header.minKey
    maxKey := header.maxKey
    numDataPages := header.numDataPages
    firstDataPageId := header.firstDataPageId
    sparseIndex
    bloom := ofBytes bytes header.bloomNumBits header.bloomNumHashes }

/-! ## Reading -/

namespace OpenTable

/-- `SSTable::MightContain`. -/
def mightContain (table : OpenTable) (key : KeyType) : Option Bool :=
  if table.numEntries = 0 ∨ key < table.minKey ∨ table.maxKey < key then some false
  else table.bloom.map (·.mightContain key)

/-- `SSTable::FindPagePos`. -/
def findPagePos (table : OpenTable) (key : KeyType) : Int32 :=
  let upper := table.sparseIndex.findIdx fun entry => decide (key < entry.firstKey)
  if upper = 0 then 0 else Int32.ofNat (upper - 1)

/-- The data page at a page id. -/
def dataPage (table : OpenTable) (pageId : Int) : Option DataPage := do
  (← fetch table.file pageId).asData

/-- `std::lower_bound` over the slots of a data page. -/
def lowerBound (page : DataPage) (key : KeyType) : Nat :=
  page.items.findIdx fun entry => decide (key ≤ entry.key)

/-- `SSTable::Get`. -/
def get (table : OpenTable) (key : KeyType) : Option (Option StoredValue) := do
  if ← table.mightContain key then
    let entry ← table.sparseIndex[(table.findPagePos key).toNatClampNeg]?
    let page ← table.dataPage entry.pageId
    let index := lowerBound page key
    if index < page.count ∧ (page.slot index).key = key then
      return some (page.slot index).stored
    else return none
  else return none

/-- `SSTable::Iterator` while it is valid. -/
structure Iterator where
  page : DataPage
  pageId : Int
  index : Nat
  pagePos : Int32
  cachedKey : KeyType
  cachedValue : StoredValue

/-- `Iterator::LoadCurrent` on an iterator at a position. -/
def Iterator.loadCurrent (page : DataPage) (pageId : Int) (index : Nat) (pagePos : Int32) :
    Iterator where
  page
  pageId
  index
  pagePos
  cachedKey := (page.slot index).key
  cachedValue := (page.slot index).stored

/-- `SSTable::NewIterator`; the inner option is `none` for an iterator that is not valid. -/
def newIterator (table : OpenTable) (startKey : KeyType) : Option (Option Iterator) := do
  if table.numEntries = 0 ∨ table.maxKey < startKey then return none
  else
    let pagePos := table.findPagePos (max startKey table.minKey)
    let entry ← table.sparseIndex[pagePos.toNatClampNeg]?
    let page ← table.dataPage entry.pageId
    let index := lowerBound page startKey
    if page.count ≤ index then
      let pagePos := pagePos + 1
      let pageId := table.firstDataPageId + pagePos.toInt
      let page ← table.dataPage pageId
      return some (.loadCurrent page pageId 0 pagePos)
    else return some (.loadCurrent page entry.pageId index pagePos)

/-- `Iterator::Next`. -/
def next (table : OpenTable) (iterator : Iterator) : Option (Option Iterator) := do
  let index := iterator.index + 1
  if iterator.page.count ≤ index then
    let pagePos := iterator.pagePos + 1
    if table.numDataPages ≤ pagePos then return none
    else
      let pageId := table.firstDataPageId + pagePos.toInt
      let page ← table.dataPage pageId
      return some (.loadCurrent page pageId 0 pagePos)
  else return some (.loadCurrent iterator.page iterator.pageId index iterator.pagePos)

/-- What repeated `Next` delivers until the iterator is no longer valid. -/
def collect (table : OpenTable) : Nat → Option Iterator → Option (List Entry)
  | _, none => some []
  | 0, some _ => none
  | fuel + 1, some iterator => do
    let following ← table.next iterator
    let rest ← collect table fuel following
    return (iterator.cachedKey, iterator.cachedValue) :: rest

end OpenTable

end DbEngine.Lsm.TableFile
