import DbEngine.Index.Tree

/-!
# Subtrees in context

Splits, borrows and merges work their way up from a leaf.  A context is the rest of the
tree around the subtree they have reached: its pages, its entries and its marks do not
depend on more of the subtree than its page id and its leftmost leaf.
-/

namespace DbEngine.Index

open Lib

/-! ## Occupancy -/

/-- `GetMaxSize` of a node of some height. -/
def TreeConfig.maxAt (config : TreeConfig) : Nat → Nat
  | 0 => config.leafMaxSize
  | _ + 1 => config.internalMaxSize

/-- `GetMinSize` of a node of some height. -/
def TreeConfig.minAt (config : TreeConfig) (height : Nat) : Nat :=
  (config.maxAt height + 1) / 2

lemma TreeConfig.three_le_maxAt (config : TreeConfig) (height : Nat) : 3 ≤ config.maxAt height := by
  cases height with
  | zero => exact config.leafBounds.1
  | succ height => exact config.internalBounds.1

lemma TreeConfig.two_le_minAt (config : TreeConfig) (height : Nat) : 2 ≤ config.minAt height := by
  have large := config.three_le_maxAt height
  unfold minAt
  omega

lemma TreeConfig.minAt_le_maxAt (config : TreeConfig) (height : Nat) :
    config.minAt height ≤ config.maxAt height := by
  have large := config.three_le_maxAt height
  unfold minAt
  omega

namespace Tree

variable {config : TreeConfig} {height : Nat}

/-- Every node below the top one is between its minimum and its maximum size. -/
def Sized (config : TreeConfig) : {height : Nat} → Tree height → Prop
  | 0, _ => True
  | height + 1, node => ∀ child ∈ InnerNode.children node,
      config.minAt height ≤ child.2.size ∧ child.2.size ≤ config.maxAt height ∧
        Sized config child.2

/-- The top node too, as it must be of every node but the root. -/
def Fits (config : TreeConfig) (tree : Tree height) : Prop :=
  config.minAt height ≤ tree.size ∧ tree.size ≤ config.maxAt height ∧ tree.Sized config

def RowFits (config : TreeConfig) (children : List (KeyType × Tree height)) : Prop :=
  ∀ child ∈ children, child.2.Fits config

lemma sized_node (pid : PageId) (children : List (KeyType × Tree height)) :
    (node pid children).Sized config ↔ RowFits config children := Iff.rfl

@[simp] lemma rowFits_nil : RowFits config ([] : List (KeyType × Tree height)) := by
  intro child mem
  cases mem

variable {children : List (KeyType × Tree height)} {pid : PageId}

@[simp] lemma rowFits_cons {key : KeyType} :
    RowFits config ((key, tree) :: children) ↔ tree.Fits config ∧ RowFits config children := by
  simp [RowFits]

@[simp] lemma rowFits_append {before after : List (KeyType × Tree height)} :
    RowFits config (before ++ after) ↔ RowFits config before ∧ RowFits config after := by
  simp [RowFits, or_imp, forall_and]

lemma fits_leaf_iff : (leaf pid entries).Fits config ↔
      config.minAt 0 ≤ entries.length ∧ entries.length ≤ config.maxAt 0 := by
  simp [Fits, Sized]

lemma fits_node_iff : (node pid children).Fits config ↔
      config.minAt (height + 1) ≤ children.length ∧
        children.length ≤ config.maxAt (height + 1) ∧ RowFits config children := Iff.rfl

end Tree

/-! ## Contexts -/

/-- An inner node around one of its children. -/
structure Frame (height : Nat) where
  pid : PageId
  before : List (KeyType × Tree height)
  key : KeyType
  after : List (KeyType × Tree height)

/-- The tree around a subtree of some height. -/
inductive Context : Nat → Type where
  | root {height : Nat} : Context height
  | inside {height : Nat} (frame : Frame height) (outer : Context (height + 1)) :
      Context height

/-- A tree of any height. -/
structure AnyTree where
  height : Nat
  tree : Tree height

open Tree

/-- The node with a child in place. -/
def Frame.fill {height : Nat} (frame : Frame height) (child : Tree height) :
    Tree (height + 1) :=
  node frame.pid (frame.before ++ (frame.key, child) :: frame.after)

namespace Context

variable {config : TreeConfig}

/-- The whole tree, with a subtree in place. -/
def plug : {height : Nat} → Context height → Tree height → AnyTree
  | _, .root, tree => ⟨_, tree⟩
  | _, .inside frame outer, tree => outer.plug (frame.fill tree)

/-- How many levels there are above. -/
def depth : {height : Nat} → Context height → Nat
  | _, .root => 0
  | _, .inside _ outer => outer.depth + 1

/-- The parent of the subtree. -/
def parent : {height : Nat} → Context height → Option PageId
  | _, .root => none
  | _, .inside frame _ => some frame.pid

/-- The leaf after the subtree. -/
def next : {height : Nat} → Context height → Option PageId
  | _, .root => none
  | _, .inside frame outer => firstOf frame.after outer.next

/-- The root, given the page id of the subtree. -/
def rootId : {height : Nat} → Context height → PageId → PageId
  | _, .root, pid => pid
  | _, .inside frame outer, _ => outer.rootId frame.pid

/-- The pages around a subtree with a given page id and leftmost leaf. -/
def pages (config : TreeConfig) : {height : Nat} → Context height → PageId →
    Option PageId → PageHeap Page
  | _, .root, _, _ => 0
  | _, .inside frame outer, pid, first =>
    {(frame.pid, .internal ⟨outer.parent, config.internalMaxSize,
      slots frame.before ++ (frame.key, pid) :: slots frame.after⟩)} +
    rowPages config (some frame.pid) first frame.before +
    rowPages config (some frame.pid) outer.next frame.after +
    outer.pages config frame.pid (firstOf frame.before first)

/-- The marks to the left of the subtree. -/
def leftMarks : {height : Nat} → Context height → List (Mark KeyType)
  | _, .root => []
  | _, .inside frame outer =>
    outer.leftMarks ++ (rowMarks frame.before ++ [sepMark frame.key]).tail

/-- The marks to the right of the subtree. -/
def rightMarks : {height : Nat} → Context height → List (Mark KeyType)
  | _, .root => []
  | _, .inside frame outer => rowMarks frame.after ++ outer.rightMarks

def leftEntries : {height : Nat} → Context height → List (KeyType × Bytes)
  | _, .root => []
  | _, .inside frame outer => outer.leftEntries ++ rowEntries frame.before

def rightEntries : {height : Nat} → Context height → List (KeyType × Bytes)
  | _, .root => []
  | _, .inside frame outer => rowEntries frame.after ++ outer.rightEntries

def leftLeaves : {height : Nat} → Context height → List LeafNode
  | _, .root => []
  | _, .inside frame outer => outer.leftLeaves ++ rowLeaves frame.before

def rightLeaves : {height : Nat} → Context height → List LeafNode
  | _, .root => []
  | _, .inside frame outer => rowLeaves frame.after ++ outer.rightLeaves

/-- The least size of the subtree's top node: a root leaf has an entry, an inner root two
children, and any other node its minimum. -/
def least (config : TreeConfig) : {height : Nat} → Context height → Nat
  | height, .root => if height = 0 then 1 else 2
  | height, .inside _ _ => config.minAt height

lemma least_pos (config : TreeConfig) (context : Context height) : 0 < context.least config := by
  cases context with
  | root =>
    simp only [least]
    split <;> exact Nat.succ_pos _
  | inside => exact lt_of_lt_of_le (by decide) (config.two_le_minAt _)

/-- A node with children always has a second one. -/
lemma two_le_least (config : TreeConfig) (context : Context (height + 1)) :
    2 ≤ context.least config := by
  cases context with
  | root => exact Nat.le_refl 2
  | inside => exact config.two_le_minAt _

/-- The sizes the subtree's top node may have. -/
def Allows (config : TreeConfig) {height : Nat} (context : Context height) (size : Nat) :
    Prop :=
  context.least config ≤ size ∧ size ≤ config.maxAt height

/-- The nodes around the subtree have the sizes they may have. -/
def Sized (config : TreeConfig) : {height : Nat} → Context height → Prop
  | _, .root => True
  | _, .inside frame outer =>
    RowFits config frame.before ∧ RowFits config frame.after ∧
      outer.Allows config (frame.before.length + 1 + frame.after.length) ∧
      outer.Sized config

end Context

namespace Frame

variable {config : TreeConfig} {height : Nat} (frame : Frame height) (child : Tree height)

@[simp] lemma pid_fill : (frame.fill child).pid = frame.pid := rfl

lemma size_fill : (frame.fill child).size = frame.before.length + 1 + frame.after.length := by
  have counted : (frame.fill child).size =
      (frame.before ++ (frame.key, child) :: frame.after).length := rfl
  rw [counted, length_append, length_cons]
  omega

lemma firstLeaf_fill : (frame.fill child).firstLeaf = firstOf frame.before child.firstLeaf := by
  rw [Frame.fill, firstLeaf_node, firstOf_append, firstOf_cons]

lemma marks_fill : (frame.fill child).marks =
    (rowMarks frame.before ++ [sepMark frame.key]).tail ++ child.marks ++ rowMarks frame.after := by
  have whole : (frame.fill child).marks =
      (rowMarks (frame.before ++ (frame.key, child) :: frame.after)).tail := rfl
  have split : rowMarks (frame.before ++ (frame.key, child) :: frame.after) =
      (rowMarks frame.before ++ [sepMark frame.key]) ++
        (child.marks ++ rowMarks frame.after) := by
    simp [rowMarks]
  rw [whole, split, List.tail_append_of_ne_nil (by simp), append_assoc]

lemma toList_fill : (frame.fill child).toList =
    rowEntries frame.before ++ child.toList ++ rowEntries frame.after := by
  have whole : (frame.fill child).toList =
      rowEntries (frame.before ++ (frame.key, child) :: frame.after) := rfl
  rw [whole]
  simp [rowEntries]

lemma leaves_fill : (frame.fill child).leaves =
    rowLeaves frame.before ++ child.leaves ++ rowLeaves frame.after := by
  have whole : (frame.fill child).leaves =
      rowLeaves (frame.before ++ (frame.key, child) :: frame.after) := rfl
  rw [whole]
  simp [rowLeaves]

lemma page_fill (parent next : Option PageId) : (frame.fill child).page config parent next =
      .internal ⟨parent, config.internalMaxSize,
        slots frame.before ++ (frame.key, child.pid) :: slots frame.after⟩ := by
  have whole : (frame.fill child).page config parent next =
      .internal ⟨parent, config.internalMaxSize,
        slots (frame.before ++ (frame.key, child) :: frame.after)⟩ := rfl
  rw [whole]
  simp [slots]

lemma below_fill (next : Option PageId) : (frame.fill child).below config next =
      rowPages config (some frame.pid) child.firstLeaf frame.before +
      (child.pages config (some frame.pid) (firstOf frame.after next) +
        rowPages config (some frame.pid) next frame.after) := by
  have whole : (frame.fill child).below config next = rowPages config (some frame.pid) next
        (frame.before ++ (frame.key, child) :: frame.after) := rfl
  rw [whole, rowPages_append, rowPages_cons, firstOf_cons]

lemma sized_fill : (frame.fill child).Sized config ↔
    RowFits config frame.before ∧ child.Fits config ∧ RowFits config frame.after := by
  rw [Frame.fill, sized_node, rowFits_append, rowFits_cons]

end Frame

namespace Context

variable {config : TreeConfig} {height : Nat} {frame : Frame height}
  {outer : Context (height + 1)} {tree : Tree height}

/-- A subtree and its context are a subtree and its context one level up. -/
lemma pages_inside : (inside frame outer).pages config tree.pid tree.firstLeaf +
        tree.pages config (inside frame outer).parent (inside frame outer).next =
      outer.pages config (frame.fill tree).pid (frame.fill tree).firstLeaf +
        (frame.fill tree).pages config outer.parent outer.next := by
  rw [Tree.pages_eq (frame.fill tree), Frame.page_fill, Frame.below_fill,
    Frame.firstLeaf_fill, Frame.pid_fill]
  simp only [pages, parent, next]
  ac_rfl

lemma marks_inside :
    (inside frame outer).leftMarks ++ tree.marks ++ (inside frame outer).rightMarks =
      outer.leftMarks ++ (frame.fill tree).marks ++ outer.rightMarks := by
  rw [Frame.marks_fill]
  simp [leftMarks, rightMarks]

variable {height : Nat}

section

variable (context : Context height) (tree : Tree height)

lemma pages_plug :
    (context.plug tree).tree.pages config none none = context.pages config tree.pid tree.firstLeaf +
        tree.pages config context.parent context.next := by
  induction context with
  | root => exact (zero_add _).symm
  | inside frame outer ih => exact (ih (frame.fill tree)).trans pages_inside.symm

lemma marks_plug :
    (context.plug tree).tree.marks = context.leftMarks ++ tree.marks ++ context.rightMarks := by
  induction context with
  | root => simp [plug, leftMarks, rightMarks]
  | inside frame outer ih => rw [plug, ih, marks_inside]

lemma toList_plug : (context.plug tree).tree.toList =
      context.leftEntries ++ tree.toList ++ context.rightEntries := by
  induction context with
  | root => simp [plug, leftEntries, rightEntries]
  | inside frame outer ih =>
    rw [plug, ih, Frame.toList_fill]
    simp [leftEntries, rightEntries]

lemma leaves_plug :
    (context.plug tree).tree.leaves = context.leftLeaves ++ tree.leaves ++ context.rightLeaves := by
  induction context with
  | root => simp [plug, leftLeaves, rightLeaves]
  | inside frame outer ih =>
    rw [plug, ih, Frame.leaves_fill]
    simp [leftLeaves, rightLeaves]

lemma pid_plug : (context.plug tree).tree.pid = context.rootId tree.pid := by
  induction context with
  | root => rfl
  | inside frame outer ih => exact ih (frame.fill tree)

lemma height_plug : (context.plug tree).height = height + context.depth := by
  induction context with
  | root => rfl
  | inside frame outer ih =>
    rw [plug, ih, depth]
    omega

end

end Context

/-- What holds of a whole tree between operations: its marks are in order and its nodes
have the sizes they may have. -/
structure AnyTree.Valid (config : TreeConfig) (whole : AnyTree) : Prop where
  inOrder : InOrder whole.tree.marks
  size : Context.Allows config (.root : Context whole.height) whole.tree.size
  sized : whole.tree.Sized config

namespace Context

variable {config : TreeConfig}

/-- A whole tree is valid exactly if a subtree and its context are. -/
lemma valid_plug {context : Context height} {tree : Tree height} :
    (context.plug tree).Valid config ↔
      InOrder (context.leftMarks ++ tree.marks ++ context.rightMarks) ∧
        context.Sized config ∧ context.Allows config tree.size ∧ tree.Sized config := by
  induction context with
  | root =>
    rw [← marks_plug]
    constructor
    · intro valid
      exact ⟨valid.inOrder, trivial, valid.size, valid.sized⟩
    · rintro ⟨inOrder, _, size, sized⟩
      exact ⟨inOrder, size, sized⟩
  | inside frame outer ih =>
    rw [plug, ih, ← marks_inside, Frame.size_fill, Frame.sized_fill]
    simp only [Sized, Allows, least, Tree.Fits]
    tauto

end Context

end DbEngine.Index
