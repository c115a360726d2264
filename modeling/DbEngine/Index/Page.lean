import DbEngine.Common.Config
import DbEngine.Lib.PageProgram

/-!
# Tree pages

`index/b_plus_tree_page.h`, `index/leaf_page.cpp` and `index/internal_page.cpp`: the two
kinds of nodes and the operations on their arrays.  The first `size_` slots of an array
are a list, so that its length is the size.  `std::lower_bound` and `std::upper_bound` are
read as what they find in a sorted array, the first slot that is not below the key and the
first that is above it.  `INVALID_PAGE_ID` is `none` where a page id may be invalid.
-/

namespace DbEngine.Index

open Lib

/-- `sizeof(BPlusTreePage)`: three 32-bit fields, padding, and a 64-bit id. -/
def headerSize : Nat := 24

/-! ## Leaves -/

structure LeafPage where
  parentPageId : Option PageId
  maxSize : Nat
  nextPageId : Option PageId
  entries : List (KeyType × Bytes)
  deriving Repr, DecidableEq

namespace LeafPage

/-- `LeafPage::Capacity()`: a slot holds a key, a 16-bit length and `MAX_VALUE_SIZE`
bytes, padded to a multiple of eight. -/
def capacity : Nat := (PAGE_SIZE - headerSize - 8) / ((8 + 2 + MAX_VALUE_SIZE + 7) / 8 * 8)

/-- `LeafPage::Init`. -/
def init (parentId : Option PageId) (maxSize : Nat) : LeafPage where
  parentPageId := parentId
  maxSize := maxSize
  nextPageId := none
  entries := []

def keyAt (leaf : LeafPage) (index : Nat) : Option KeyType :=
  leaf.entries[index]?.map Prod.fst

/-- `LeafPage::KeyIndex`. -/
def keyIndex (leaf : LeafPage) (key : KeyType) : Nat :=
  (leaf.entries.takeWhile fun entry => decide (entry.1 < key)).length

/-- `LeafPage::Lookup`. -/
def lookup (leaf : LeafPage) (key : KeyType) : Option Bytes :=
  match leaf.entries[leaf.keyIndex key]? with
  | some (found, value) => if found = key then some value else none
  | none => none

/-- `LeafPage::Insert`; the error is the message of the `std::invalid_argument`. -/
def insert (leaf : LeafPage) (key : KeyType) (value : Bytes) : Except String LeafPage :=
  if MAX_VALUE_SIZE < value.length then
    .error "LeafPage::Insert: value exceeds MAX_VALUE_SIZE"
  else
    let index := leaf.keyIndex key
    if leaf.keyAt index = some key then
      .ok { leaf with entries := leaf.entries.set index (key, value) }
    else
      .ok { leaf with entries := leaf.entries.insertIdx index (key, value) }

/-- `LeafPage::Remove`. -/
def remove (leaf : LeafPage) (key : KeyType) : Option LeafPage :=
  let index := leaf.keyIndex key
  if leaf.keyAt index = some key then
    some { leaf with entries := leaf.entries.eraseIdx index }
  else
    none

/-- `LeafPage::MoveHalfTo`: this page and the recipient afterwards. -/
def moveHalfTo (leaf recipient : LeafPage) (recipientPageId : PageId) :
    LeafPage × LeafPage :=
  let start := leaf.entries.length / 2
  ({ leaf with entries := leaf.entries.take start, nextPageId := some recipientPageId },
   { recipient with
      entries := leaf.entries.drop start
      nextPageId := leaf.nextPageId })

/-- `LeafPage::MoveAllTo`. -/
def moveAllTo (leaf recipient : LeafPage) : LeafPage × LeafPage :=
  ({ leaf with entries := [] },
   { recipient with
      entries := recipient.entries ++ leaf.entries
      nextPageId := leaf.nextPageId })

/-- `LeafPage::MoveFirstToEndOf`. -/
def moveFirstToEndOf (leaf recipient : LeafPage) : Option (LeafPage × LeafPage) :=
  match leaf.entries with
  | [] => none
  | first :: rest => some
      ({ leaf with entries := rest },
       { recipient with entries := recipient.entries ++ [first] })

/-- `LeafPage::MoveLastToFrontOf`. -/
def moveLastToFrontOf (leaf recipient : LeafPage) : Option (LeafPage × LeafPage) :=
  match leaf.entries.getLast? with
  | none => none
  | some last => some
      ({ leaf with entries := leaf.entries.dropLast },
       { recipient with entries := last :: recipient.entries })

end LeafPage

/-! ## Internal nodes -/

/-- The key of slot 0 is a placeholder. -/
structure InternalPage where
  parentPageId : Option PageId
  maxSize : Nat
  entries : List (KeyType × PageId)
  deriving Repr, DecidableEq

namespace InternalPage

/-- `InternalPage::Capacity()`: a slot holds a key and a page id. -/
def capacity : Nat := (PAGE_SIZE - headerSize) / 16

/-- `InternalPage::Init`. -/
def init (parentId : Option PageId) (maxSize : Nat) : InternalPage where
  parentPageId := parentId
  maxSize := maxSize
  entries := []

def keyAt (page : InternalPage) (index : Nat) : Option KeyType :=
  page.entries[index]?.map Prod.fst

/-- `InternalPage::SetKeyAt`. -/
def setKeyAt (page : InternalPage) (index : Nat) (key : KeyType) : InternalPage :=
  { page with entries := page.entries.modify index fun entry => (key, entry.2) }

def valueAt (page : InternalPage) (index : Nat) : Option PageId :=
  page.entries[index]?.map Prod.snd

/-- `InternalPage::ValueIndex`, with `none` for -1. -/
def valueIndex (page : InternalPage) (value : PageId) : Option Nat :=
  page.entries.findIdx? fun entry => decide (entry.2 = value)

/-- `InternalPage::Lookup`: the last slot before the first separator above the key. -/
def lookup (page : InternalPage) (key : KeyType) : Option PageId :=
  match page.entries with
  | [] => none
  | first :: rest =>
    ((first :: rest.takeWhile fun entry => !decide (key < entry.1)).getLast?).map Prod.snd

/-- `InternalPage::PopulateNewRoot`, on a page whose memory is zero. -/
def populateNewRoot (page : InternalPage) (oldValue : PageId) (newKey : KeyType)
    (newValue : PageId) : InternalPage :=
  { page with entries := [(0, oldValue), (newKey, newValue)] }

/-- `InternalPage::InsertNodeAfter`; `none` if the old value is not found. -/
def insertNodeAfter (page : InternalPage) (oldValue : PageId) (newKey : KeyType)
    (newValue : PageId) : Option InternalPage :=
  match page.valueIndex oldValue with
  | none => none
  | some index =>
    some { page with entries := page.entries.insertIdx (index + 1) (newKey, newValue) }

/-- `InternalPage::Remove`. -/
def remove (page : InternalPage) (index : Nat) : InternalPage :=
  { page with entries := page.entries.eraseIdx index }

/-- `InternalPage::MoveHalfTo`, but for the parent ids of the moved children. -/
def moveHalfTo (page recipient : InternalPage) : InternalPage × InternalPage :=
  let start := page.entries.length / 2
  ({ page with entries := page.entries.take start },
   { recipient with entries := page.entries.drop start })

/-- `InternalPage::MoveAllTo`, but for the parent ids of the moved children. -/
def moveAllTo (page recipient : InternalPage) (middleKey : KeyType) :
    InternalPage × InternalPage :=
  let page := page.setKeyAt 0 middleKey
  ({ page with entries := [] },
   { recipient with entries := recipient.entries ++ page.entries })

/-- `InternalPage::MoveFirstToEndOf`, but for the parent id of the moved child. -/
def moveFirstToEndOf (page recipient : InternalPage) (middleKey : KeyType) :
    Option (InternalPage × InternalPage) :=
  match page.entries with
  | [] => none
  | first :: rest => some
      ({ page with entries := rest },
       { recipient with entries := recipient.entries ++ [(middleKey, first.2)] })

/-- `InternalPage::MoveLastToFrontOf`, but for the parent id of the moved child.  The
entries move up one slot, the key of slot 0 stays where it was, and slot 1 gets the
separator. -/
def moveLastToFrontOf (page recipient : InternalPage) (middleKey : KeyType) :
    Option (InternalPage × InternalPage) :=
  match page.entries.getLast?, recipient.entries with
  | some last, first :: rest => some
      ({ page with entries := page.entries.dropLast },
       { recipient with entries := (first.1, last.2) :: (middleKey, first.2) :: rest })
  | _, _ => none

end InternalPage

/-! ## Pages -/

/-- What the bytes of a page are read as: zeros, the engine's meta page, or a node. -/
inductive Page where
  | blank
  | metaPage (rootPageId : Option PageId)
  | leaf (page : LeafPage)
  | internal (page : InternalPage)
  deriving Repr, DecidableEq

namespace Page

/-- `GetSize`. -/
def size : Page → Nat
  | .leaf page => page.entries.length
  | .internal page => page.entries.length
  | _ => 0

/-- `GetMaxSize`. -/
def maxSize : Page → Nat
  | .leaf page => page.maxSize
  | .internal page => page.maxSize
  | _ => 0

/-- `GetMinSize`. -/
def minSize (page : Page) : Nat := (page.maxSize + 1) / 2

/-- `GetParentPageId`. -/
def parentPageId : Page → Option PageId
  | .leaf page => page.parentPageId
  | .internal page => page.parentPageId
  | _ => none

/-- `SetParentPageId`. -/
def setParentPageId (parent : Option PageId) : Page → Page
  | .leaf page => .leaf { page with parentPageId := parent }
  | .internal page => .internal { page with parentPageId := parent }
  | page => page

def capacity : Page → Nat
  | .leaf _ => LeafPage.capacity
  | .internal _ => InternalPage.capacity
  | _ => 0

/-- At most one entry above the maximum, and every slot in the array. -/
def fits (page : Page) : Bool :=
  decide (page.size ≤ page.maxSize + 1) && decide (page.size ≤ page.capacity)

/-- What moving an entry or all entries between two siblings leaves: the page they came
from, the page they went to, the separator above them, and the children whose parent
changed. -/
structure Moved where
  source : Page
  recipient : Page
  separator : KeyType
  children : List PageId

/-- `MoveLastToFrontOf` of either kind, with the separator `HandleUnderflow` puts above. -/
def moveLastToFrontOf : Page → Page → KeyType → Option Moved
  | .leaf source, .leaf recipient, _ => do
    let (source, recipient) ← source.moveLastToFrontOf recipient
    let separator ← recipient.keyAt 0
    return ⟨.leaf source, .leaf recipient, separator, []⟩
  | .internal source, .internal recipient, middleKey => do
    let separator ← source.keyAt (source.entries.length - 1)
    let child ← source.valueAt (source.entries.length - 1)
    let (source, recipient) ← source.moveLastToFrontOf recipient middleKey
    return ⟨.internal source, .internal recipient, separator, [child]⟩
  | _, _, _ => none

/-- `MoveFirstToEndOf` of either kind, with the separator `HandleUnderflow` puts above. -/
def moveFirstToEndOf : Page → Page → KeyType → Option Moved
  | .leaf source, .leaf recipient, _ => do
    let (source, recipient) ← source.moveFirstToEndOf recipient
    let separator ← source.keyAt 0
    return ⟨.leaf source, .leaf recipient, separator, []⟩
  | .internal source, .internal recipient, middleKey => do
    let separator ← source.keyAt 1
    let child ← source.valueAt 0
    let (source, recipient) ← source.moveFirstToEndOf recipient middleKey
    return ⟨.internal source, .internal recipient, separator, [child]⟩
  | _, _, _ => none

/-- `MoveAllTo` of either kind. -/
def moveAllTo : Page → Page → KeyType → Option Moved
  | .leaf source, .leaf recipient, middleKey =>
    let (source, recipient) := source.moveAllTo recipient
    some ⟨.leaf source, .leaf recipient, middleKey, []⟩
  | .internal source, .internal recipient, middleKey =>
    let children := source.entries.map Prod.snd
    let (source, recipient) := source.moveAllTo recipient middleKey
    some ⟨.internal source, .internal recipient, middleKey, children⟩
  | _, _, _ => none

end Page

end DbEngine.Index
