import DbEngine.Index.BPlusTree
import DbEngine.Lib.Marks
import DbEngine.Lib.SortedMap

/-!
# Trees with page ids

What the pages of a B+-tree stand for: a tree of uniform height whose nodes carry their
page ids.  The pages a tree occupies, the entries it holds and the marks that order it are
functions of the tree; a context is what surrounds one of its subtrees.
-/

namespace DbEngine.Index

open Lib

structure LeafNode where
  pid : PageId
  entries : List (KeyType × Bytes)

/-- The key of the first child is a placeholder. -/
structure InnerNode (Child : Type) where
  pid : PageId
  children : List (KeyType × Child)

/-- A tree in which every leaf is `height` levels below the root. -/
def Tree : Nat → Type
  | 0 => LeafNode
  | height + 1 => InnerNode (Tree height)

namespace Tree

def leaf (pid : PageId) (entries : List (KeyType × Bytes)) : Tree 0 := LeafNode.mk pid entries

def node {height : Nat} (pid : PageId) (children : List (KeyType × Tree height)) :
    Tree (height + 1) := InnerNode.mk pid children

/-- What holds of every leaf, and of a node if it holds of its children, holds of every
tree. -/
lemma inductOn {motive : (height : Nat) → Tree height → Prop}
    (leaf : ∀ pid entries, motive 0 (leaf pid entries))
    (node : ∀ {height : Nat} (pid : PageId) (children : List (KeyType × Tree height)),
      (∀ child ∈ children, motive height child.2) → motive (height + 1) (node pid children)) :
    (height : Nat) → (tree : Tree height) → motive height tree
  | 0, ⟨pid, entries⟩ => leaf pid entries
  | _ + 1, ⟨pid, children⟩ =>
    node pid children fun child _ => inductOn leaf node _ child.2

def pid : {height : Nat} → Tree height → PageId
  | 0, leaf => LeafNode.pid leaf
  | _ + 1, node => InnerNode.pid node

/-- The number of entries or children of the top node. -/
def size : {height : Nat} → Tree height → Nat
  | 0, leaf => (LeafNode.entries leaf).length
  | _ + 1, node => (InnerNode.children node).length

@[simp] lemma size_leaf (pid : PageId) (entries : List (KeyType × Bytes)) :
    (leaf pid entries).size = entries.length := rfl

@[simp] lemma size_node {height : Nat} (pid : PageId)
    (children : List (KeyType × Tree height)) : (node pid children).size = children.length :=
  rfl

/-- The leftmost leaf. -/
def firstLeaf : {height : Nat} → Tree height → Option PageId
  | 0, leaf => some (LeafNode.pid leaf)
  | _ + 1, node =>
    match InnerNode.children node with
    | [] => none
    | (_, child) :: _ => firstLeaf child

/-- The leftmost leaf of a row of trees, or what comes after them. -/
def firstOf {height : Nat} (children : List (KeyType × Tree height))
    (next : Option PageId) : Option PageId :=
  match children with
  | [] => next
  | (_, child) :: _ => child.firstLeaf

/-- The entries, from left to right. -/
def toList : {height : Nat} → Tree height → List (KeyType × Bytes)
  | 0, leaf => LeafNode.entries leaf
  | _ + 1, node => (InnerNode.children node).flatMap fun child => toList child.2

/-- The leaves, from left to right. -/
def leaves : {height : Nat} → Tree height → List LeafNode
  | 0, leaf => [leaf]
  | _ + 1, node => (InnerNode.children node).flatMap fun child => leaves child.2

/-- The keys and the separators, from left to right. -/
def marks : {height : Nat} → Tree height → List (Mark KeyType)
  | 0, leaf => (LeafNode.entries leaf).map fun entry => keyMark entry.1
  | _ + 1, node =>
    ((InnerNode.children node).flatMap fun child => sepMark child.1 :: marks child.2).tail

/-- The marks of a row of trees, each after its separator. -/
def rowMarks {height : Nat} (children : List (KeyType × Tree height)) :
    List (Mark KeyType) :=
  children.flatMap fun child => sepMark child.1 :: child.2.marks

def rowEntries {height : Nat} (children : List (KeyType × Tree height)) :
    List (KeyType × Bytes) :=
  children.flatMap fun child => child.2.toList

def rowLeaves {height : Nat} (children : List (KeyType × Tree height)) : List LeafNode :=
  children.flatMap fun child => child.2.leaves

/-! ## Pages -/

/-- The slots of a node with these children. -/
def slots {height : Nat} (children : List (KeyType × Tree height)) :
    List (KeyType × PageId) :=
  children.map fun child => (child.1, child.2.pid)

/-- The page of an inner node with these children. -/
abbrev nodePage {height : Nat} (config : TreeConfig) (parent : Option PageId)
    (children : List (KeyType × Tree height)) : Page :=
  .internal ⟨parent, config.internalMaxSize, slots children⟩

/-- The page of the top node. -/
def page (config : TreeConfig) : {height : Nat} → Tree height → Option PageId →
    Option PageId → Page
  | 0, leaf, parent, next =>
    .leaf ⟨parent, config.leafMaxSize, next, LeafNode.entries leaf⟩
  | _ + 1, node, parent, _ =>
    .internal ⟨parent, config.internalMaxSize, slots (InnerNode.children node)⟩

/-- The pages of a row of trees, given the pages of one and of the leaf after it. -/
def chain {height : Nat} (pages : Tree height → Option PageId → PageHeap Page)
    (next : Option PageId) : List (KeyType × Tree height) → PageHeap Page
  | [] => 0
  | (_, child) :: rest => pages child (firstOf rest next) + chain pages next rest

/-- The pages of a tree below `parent`, whose last leaf is followed by `next`. -/
def pages (config : TreeConfig) : {height : Nat} → Tree height → Option PageId →
    Option PageId → PageHeap Page
  | 0, leaf, parent, next => {(LeafNode.pid leaf, page config leaf parent next)}
  | _ + 1, node, parent, next =>
    {(InnerNode.pid node, page config node parent next)} +
      chain (fun child => pages config child (some (InnerNode.pid node))) next
        (InnerNode.children node)

/-- The pages of a row of trees with one parent. -/
def rowPages (config : TreeConfig) {height : Nat} (parent next : Option PageId)
    (children : List (KeyType × Tree height)) : PageHeap Page :=
  chain (fun child => pages config child parent) next children

/-- The pages below the top node. -/
def below (config : TreeConfig) : {height : Nat} → Tree height → Option PageId →
    PageHeap Page
  | 0, _, _ => 0
  | _ + 1, node, next =>
    rowPages config (some (InnerNode.pid node)) next (InnerNode.children node)

section

variable {config : TreeConfig} {height : Nat} {parent next : Option PageId}
  {children before after : List (KeyType × Tree height)} {key : KeyType}
  {child : Tree height}

lemma pages_eq {height : Nat} (tree : Tree height) (parent next : Option PageId) :
    tree.pages config parent next =
      {(tree.pid, tree.page config parent next)} + tree.below config next := by
  cases height with
  | zero => exact (add_zero _).symm
  | succ height => rfl

lemma pages_node (pid : PageId) (children : List (KeyType × Tree height))
    (parent next : Option PageId) : (node pid children).pages config parent next =
      {(pid, nodePage config parent children)} + rowPages config (some pid) next children := rfl

lemma marks_node (pid : PageId) (children : List (KeyType × Tree height)) :
    (node pid children).marks = (rowMarks children).tail := rfl

lemma toList_node (pid : PageId) (children : List (KeyType × Tree height)) :
    (node pid children).toList = rowEntries children := rfl

@[simp] lemma firstOf_nil : firstOf ([] : List (KeyType × Tree height)) next = next := rfl

@[simp] lemma firstOf_cons : firstOf ((key, child) :: children) next = child.firstLeaf :=
  rfl

lemma firstOf_append : firstOf (before ++ after) next = firstOf before (firstOf after next) := by
  cases before <;> rfl

lemma firstLeaf_node (pid : PageId) : (node pid children).firstLeaf = firstOf children none := by
  cases children <;> rfl

@[simp] lemma rowPages_nil :
    rowPages config parent next ([] : List (KeyType × Tree height)) = 0 := rfl

@[simp] lemma rowPages_cons : rowPages config parent next ((key, child) :: children) =
    child.pages config parent (firstOf children next) + rowPages config parent next children := rfl

lemma rowPages_append : rowPages config parent next (before ++ after) =
    rowPages config parent (firstOf after next) before + rowPages config parent next after := by
  induction before with
  | nil => exact (zero_add _).symm
  | cons head rest ih =>
    obtain ⟨key, child⟩ := head
    rw [cons_append, rowPages_cons, rowPages_cons, ih, firstOf_append, add_assoc]

end

end Tree

end DbEngine.Index
