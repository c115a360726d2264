import DbEngine.Index.Page

/-!
# The B+-tree

`index/b_plus_tree.cpp`, as programs over pages.  Recursion along the tree takes a bound
on its depth.
-/

namespace DbEngine.Index

open Lib

/-- The bounds `BPlusTree::BPlusTree` accepts for its node sizes. -/
structure TreeConfig where
  leafMaxSize : Nat
  internalMaxSize : Nat
  leafBounds : 3 ≤ leafMaxSize ∧ leafMaxSize ≤ LeafPage.capacity - 1
  internalBounds : 3 ≤ internalMaxSize ∧ internalMaxSize ≤ InternalPage.capacity - 1

/-- Why a tree operation stops short. -/
inductive TreeError where
  /-- `std::runtime_error`. -/
  | runtimeError (message : String)
  /-- `std::invalid_argument`. -/
  | invalidArgument (message : String)
  /-- `FetchPage` returned `nullptr` and the pointer is dereferenced. -/
  | nullPage
  /-- A page is used as a node of a kind it does not have. -/
  | wrongPageType
  /-- An index outside the entries of a node, or no sibling where one must be. -/
  | badIndex
  /-- `ValueIndex` returned -1. -/
  | childNotFound
  /-- The tree is deeper than the bound. -/
  | tooDeep
  deriving Repr, DecidableEq

/-- The constructor's checks. -/
def TreeConfig.make (leafMaxSize internalMaxSize : Int) : Except TreeError TreeConfig :=
  if leaf : 3 ≤ leafMaxSize ∧ leafMaxSize ≤ LeafPage.capacity - 1 then
    if internal : 3 ≤ internalMaxSize ∧ internalMaxSize ≤ InternalPage.capacity - 1 then
      .ok { leafMaxSize := leafMaxSize.toNat
            internalMaxSize := internalMaxSize.toNat
            leafBounds := by omega
            internalBounds := by omega }
    else
      .error (.invalidArgument "BPlusTree: internal_max_size out of range")
  else
    .error (.invalidArgument "BPlusTree: leaf_max_size out of range")

abbrev TreeProg := PageProg Page TreeError

namespace BPlusTree

/-! ## Pages and pins -/

/-- `FetchPage`, and the dereference that follows it everywhere in the tree. -/
def fetchPage (pid : PageId) : TreeProg Unit :=
  .fetch pid fun pinned => if pinned then .done () else .fail .nullPage

def readPage (pid : PageId) : TreeProg Page := .read pid .done

def writePage (pid : PageId) (page : Page) : TreeProg Unit := .write pid page (.done ())

def unpinPage (pid : PageId) (dirty : Bool) : TreeProg Unit := .unpin pid dirty (.done ())

def deletePage (pid : PageId) : TreeProg Unit := .deletePage pid (.done ())

/-- `NewPage`; the exception is thrown once the guards in scope have been released. -/
def newPage (exhausted : String) (release : TreeProg Unit) : TreeProg PageId :=
  .newPage fun
    | some pid => .done pid
    | none => do
      release
      .fail (.runtimeError exhausted)

/-- `AsLeaf`. -/
def readLeaf (pid : PageId) : TreeProg LeafPage := do
  match ← readPage pid with
  | .leaf page => return page
  | _ => .fail .wrongPageType

/-- `AsInternal`. -/
def readInternal (pid : PageId) : TreeProg InternalPage := do
  match ← readPage pid with
  | .internal page => return page
  | _ => .fail .wrongPageType

/-- A value that must be there. -/
def require {α : Type} : Option α → TreeError → TreeProg α
  | some value, _ => .done value
  | none, error => .fail error

/-- `SetParentPageId` on a page that is pinned. -/
def setParent (pid : PageId) (parent : Option PageId) : TreeProg Unit := do
  let page ← readPage pid
  writePage pid (page.setParentPageId parent)

/-- `InternalPage::UpdateChildParent`, for every moved child. -/
def updateChildParents (parent : PageId) : List PageId → TreeProg Unit
  | [] => return ()
  | child :: rest => do
    fetchPage child
    setParent child (some parent)
    unpinPage child true
    updateChildParents parent rest

/-! ## Lookup -/

/-- `BPlusTree::FindLeafPageGuard`, from a page that is pinned: the leaf, pinned. -/
def findLeafPageGuard (key : KeyType) (leftmost : Bool) : Nat → PageId → TreeProg PageId
  | 0, _ => .fail .tooDeep
  | depth + 1, current => do
    match ← readPage current with
    | .leaf _ => return current
    | .internal page =>
      let child ← require (if leftmost then page.valueAt 0 else page.lookup key) .badIndex
      fetchPage child
      unpinPage current false
      findLeafPageGuard key leftmost depth child
    | _ => .fail .wrongPageType

/-- `BPlusTree::GetValue`. -/
def getValue (depth : Nat) (root : Option PageId) (key : KeyType) :
    TreeProg (Option Bytes) := do
  match root with
  | none => return none
  | some root =>
    fetchPage root
    let leafId ← findLeafPageGuard key false depth root
    let leaf ← readLeaf leafId
    unpinPage leafId false
    return leaf.lookup key

/-! ## Insert -/

/-- The new root of `BPlusTree::InsertIntoParent`, above a left page that is pinned. -/
def growRoot (config : TreeConfig) (leftId : PageId) (middleKey : KeyType)
    (rightId : PageId) : TreeProg (Option PageId) := do
  let newRootId ← newPage "BPlusTree::InsertIntoParent: buffer pool exhausted creating root"
    (unpinPage leftId false)
  let newRoot := InternalPage.init none config.internalMaxSize
  writePage newRootId (.internal (newRoot.populateNewRoot leftId middleKey rightId))
  unpinPage newRootId true
  setParent leftId (some newRootId)
  fetchPage rightId
  setParent rightId (some newRootId)
  unpinPage rightId true
  unpinPage leftId true
  return some newRootId

/-- The split of an overfull internal node in `BPlusTree::InsertIntoParent`: the key to
put above, and the new page. -/
def splitInternal (config : TreeConfig) (leftId parentId : PageId) :
    TreeProg (KeyType × PageId) := do
  let newId ← newPage
    "BPlusTree::InsertIntoParent: buffer pool exhausted splitting internal node"
    (do unpinPage parentId true; unpinPage leftId false)
  let parent ← readInternal parentId
  let (parent, newInternal) := parent.moveHalfTo
    (InternalPage.init parent.parentPageId config.internalMaxSize)
  writePage parentId (.internal parent)
  writePage newId (.internal newInternal)
  updateChildParents newId (newInternal.entries.map Prod.snd)
  let upKey ← require (newInternal.keyAt 0) .badIndex
  unpinPage newId true
  return (upKey, newId)

/-- `BPlusTree::InsertIntoParent`: the root afterwards. -/
def insertIntoParent (config : TreeConfig) :
    Nat → Option PageId → PageId → KeyType → PageId → TreeProg (Option PageId)
  | 0, _, _, _, _ => .fail .tooDeep
  | depth + 1, root, leftId, middleKey, rightId => do
    fetchPage leftId
    let left ← readPage leftId
    match left.parentPageId with
    | none => growRoot config leftId middleKey rightId
    | some parentId =>
      fetchPage parentId
      let parent ← readInternal parentId
      let parent ← require (parent.insertNodeAfter leftId middleKey rightId) .childNotFound
      writePage parentId (.internal parent)
      if config.internalMaxSize < parent.entries.length then do
        let (upKey, newId) ← splitInternal config leftId parentId
        let root ← (insertIntoParent config depth root parentId upKey newId).onFail
          (do unpinPage parentId true; unpinPage leftId false)
        unpinPage parentId true
        unpinPage leftId false
        return root
      else do
        unpinPage parentId true
        unpinPage leftId false
        return root

/-- The split of an overfull leaf in `BPlusTree::Insert`: the key to put above, and the
new page, pinned. -/
def splitLeaf (config : TreeConfig) (leafId : PageId) : TreeProg (KeyType × PageId) := do
  let newId ← newPage "BPlusTree::Insert: buffer pool exhausted splitting leaf"
    (unpinPage leafId true)
  let leaf ← readLeaf leafId
  let (leaf, newLeaf) := leaf.moveHalfTo
    (LeafPage.init leaf.parentPageId config.leafMaxSize) newId
  writePage leafId (.leaf leaf)
  writePage newId (.leaf newLeaf)
  let middleKey ← require (newLeaf.keyAt 0) .badIndex
  return (middleKey, newId)

/-- `BPlusTree::Insert` into an empty tree.  No guard holds the new page, so an exception
leaves it pinned. -/
def insertFirst (config : TreeConfig) (key : KeyType) (value : Bytes) :
    TreeProg (Bool × Option PageId) := do
  let newPageId ← newPage "BPlusTree::Insert: buffer pool exhausted creating root" (.done ())
  let leaf := LeafPage.init none config.leafMaxSize
  match leaf.insert key value with
  | .error message => .fail (.invalidArgument message)
  | .ok leaf => do
    writePage newPageId (.leaf leaf)
    unpinPage newPageId true
    return (true, some newPageId)

/-- `BPlusTree::Insert`: whether the key is new, and the root afterwards. -/
def insert (config : TreeConfig) (depth : Nat) (root : Option PageId) (key : KeyType)
    (value : Bytes) : TreeProg (Bool × Option PageId) := do
  match root with
  | none => insertFirst config key value
  | some rootId =>
    fetchPage rootId
    let leafId ← findLeafPageGuard key false depth rootId
    let leaf ← readLeaf leafId
    match leaf.insert key value with
    | .error message => do
      unpinPage leafId false
      .fail (.invalidArgument message)
    | .ok changed => do
      let insertedNew := decide (leaf.entries.length < changed.entries.length)
      writePage leafId (.leaf changed)
      if config.leafMaxSize < changed.entries.length then do
        let (middleKey, newId) ← splitLeaf config leafId
        let root ← (insertIntoParent config depth root leafId middleKey newId).onFail
          (do unpinPage newId true; unpinPage leafId true)
        unpinPage newId true
        unpinPage leafId true
        return (insertedNew, root)
      else do
        unpinPage leafId true
        return (insertedNew, root)

/-! ## Remove -/

/-- `BPlusTree::HandleRootUnderflow`, for a pinned root: the root afterwards. -/
def handleRootUnderflow (root : Option PageId) (nodeId : PageId) (dirty : Bool) :
    Page → TreeProg (Option PageId)
  | .leaf page =>
    if page.entries.length = 0 then do
      unpinPage nodeId dirty
      deletePage nodeId
      return none
    else do
      unpinPage nodeId dirty
      return root
  | .internal page =>
    if page.entries.length = 1 then do
      let onlyChild ← require (page.valueAt 0) .badIndex
      writePage nodeId (.internal { page with entries := [] })
      unpinPage nodeId dirty
      deletePage nodeId
      fetchPage onlyChild
      setParent onlyChild none
      unpinPage onlyChild true
      return some onlyChild
    else do
      unpinPage nodeId dirty
      return root
  | _ => .fail .wrongPageType

/-- A `Move…` call on two pinned siblings: the separator to put above them. -/
def moveEntries (sourceId recipientId : PageId) (found : Option Page.Moved) :
    TreeProg KeyType := do
  let moved ← require found .badIndex
  writePage sourceId moved.source
  writePage recipientId moved.recipient
  updateChildParents recipientId moved.children
  return moved.separator

/-- Take an entry from the left sibling, if there is one that can spare it. -/
def borrowFromLeft (parentId nodeId : PageId) (index : Nat) : TreeProg Bool := do
  if index = 0 then return false
  else do
    let parent ← readInternal parentId
    let leftId ← require (parent.valueAt (index - 1)) .badIndex
    fetchPage leftId
    let left ← readPage leftId
    if left.minSize < left.size then do
      let node ← readPage nodeId
      let middleKey ← require (parent.keyAt index) .badIndex
      let separator ← moveEntries leftId nodeId (left.moveLastToFrontOf node middleKey)
      writePage parentId (.internal (parent.setKeyAt index separator))
      unpinPage leftId true
      return true
    else do
      unpinPage leftId false
      return false

/-- Take an entry from the right sibling, if there is one that can spare it. -/
def borrowFromRight (parentId nodeId : PageId) (index : Nat) : TreeProg Bool := do
  let parent ← readInternal parentId
  if index + 1 < parent.entries.length then do
    let rightId ← require (parent.valueAt (index + 1)) .badIndex
    fetchPage rightId
    let right ← readPage rightId
    if right.minSize < right.size then do
      let node ← readPage nodeId
      let middleKey ← require (parent.keyAt (index + 1)) .badIndex
      let separator ← moveEntries rightId nodeId (right.moveFirstToEndOf node middleKey)
      writePage parentId (.internal (parent.setKeyAt (index + 1) separator))
      unpinPage rightId true
      return true
    else do
      unpinPage rightId false
      return false
  else return false

/-- Merge the page in slot `index` of the parent into the one before it and remove the
slot. -/
def mergeIntoLeft (parentId leftId rightId : PageId) (index : Nat) : TreeProg Unit := do
  let parent ← readInternal parentId
  let left ← readPage leftId
  let right ← readPage rightId
  let middleKey ← require (parent.keyAt index) .badIndex
  let _ ← moveEntries rightId leftId (right.moveAllTo left middleKey)
  writePage parentId (.internal (parent.remove index))

/-- Merge two pinned siblings, delete the right one and let go of the left one and the
parent.  The flag is the right one's `SetDirty`. -/
def mergeSiblings (parentId leftId rightId : PageId) (index : Nat) (dirty : Bool) :
    TreeProg Unit := do
  mergeIntoLeft parentId leftId rightId index
  unpinPage rightId dirty
  deletePage rightId
  unpinPage leftId true
  unpinPage parentId true

/-- The node in slot `index` of its parent becomes one with a sibling, the left one if there
is one. -/
def mergeWithSibling (parentId nodeId : PageId) (parent : InternalPage) (index : Nat)
    (dirty : Bool) : TreeProg Unit := do
  if 0 < index then do
    let leftId ← require (parent.valueAt (index - 1)) .badIndex
    fetchPage leftId
    mergeSiblings parentId leftId nodeId index dirty
  else do
    let rightId ← require (parent.valueAt (index + 1)) .badIndex
    fetchPage rightId
    mergeSiblings parentId nodeId rightId (index + 1) false

/-- `BPlusTree::HandleUnderflow`, for a pinned node: the root afterwards. -/
def handleUnderflow (config : TreeConfig) :
    Nat → Option PageId → PageId → Bool → TreeProg (Option PageId)
  | 0, _, _, _ => .fail .tooDeep
  | depth + 1, root, nodeId, dirty => do
    let node ← readPage nodeId
    match node.parentPageId with
    | none => handleRootUnderflow root nodeId dirty node
    | some parentId =>
      if node.minSize ≤ node.size then do
        unpinPage nodeId dirty
        return root
      else do
        fetchPage parentId
        let parent ← readInternal parentId
        let index ← require (parent.valueIndex nodeId) .childNotFound
        if ← borrowFromLeft parentId nodeId index then do
          unpinPage parentId true
          unpinPage nodeId true
          return root
        else if ← borrowFromRight parentId nodeId index then do
          unpinPage parentId true
          unpinPage nodeId true
          return root
        else do
          mergeWithSibling parentId nodeId parent index dirty
          fetchPage parentId
          handleUnderflow config depth root parentId false

/-- `BPlusTree::Remove`: whether the key was there, and the root afterwards. -/
def remove (config : TreeConfig) (depth : Nat) (root : Option PageId) (key : KeyType) :
    TreeProg (Bool × Option PageId) := do
  match root with
  | none => return (false, none)
  | some rootId =>
    fetchPage rootId
    let leafId ← findLeafPageGuard key false depth rootId
    let leaf ← readLeaf leafId
    match leaf.remove key with
    | none => do
      unpinPage leafId false
      return (false, root)
    | some changed => do
      writePage leafId (.leaf changed)
      let root ← handleUnderflow config depth root leafId true
      return (true, root)

/-! ## Iteration -/

/-- `BPlusTree::Iterator`: the pinned leaf and the slot in it, or the end. -/
abbrev Iterator := Option (PageId × Nat)

/-- `BPlusTree::Begin()`. -/
def beginFirst (depth : Nat) (root : Option PageId) : TreeProg Iterator := do
  match root with
  | none => return none
  | some root =>
    fetchPage root
    let leafId ← findLeafPageGuard INVALID_KEY true depth root
    return some (leafId, 0)

/-- `FetchPage` of the next leaf by an iterator: `nullptr` is the end. -/
def enterLeaf (next : Option PageId) : TreeProg Iterator :=
  match next with
  | none => return none
  | some next => .fetch next fun pinned => if pinned then .done (some (next, 0)) else .done none

/-- `BPlusTree::Begin(key)`. -/
def beginAt (depth : Nat) (root : Option PageId) (key : KeyType) : TreeProg Iterator := do
  match root with
  | none => return none
  | some root =>
    fetchPage root
    let leafId ← findLeafPageGuard key false depth root
    let leaf ← readLeaf leafId
    let index := leaf.keyIndex key
    if leaf.entries.length ≤ index then do
      unpinPage leafId false
      enterLeaf leaf.nextPageId
    else return some (leafId, index)

/-- `Iterator::GetKey` and `Iterator::GetValue`. -/
def current (leafId : PageId) (index : Nat) : TreeProg (KeyType × Bytes) := do
  let leaf ← readLeaf leafId
  require leaf.entries[index]? .badIndex

/-- `Iterator::operator++`. -/
def advance (leafId : PageId) (index : Nat) : TreeProg Iterator := do
  let leaf ← readLeaf leafId
  if leaf.entries.length ≤ index + 1 then do
    unpinPage leafId false
    enterLeaf leaf.nextPageId
  else return some (leafId, index + 1)

/-- An iterator run to its end: the entries it shows.  The bound is on their number. -/
def collect : Nat → Iterator → TreeProg (List (KeyType × Bytes))
  | _, none => return []
  | 0, some _ => .fail .tooDeep
  | bound + 1, some (leafId, index) => do
    let entry ← current leafId index
    let iterator ← advance leafId index
    let entries ← collect bound iterator
    return entry :: entries

end BPlusTree

end DbEngine.Index
