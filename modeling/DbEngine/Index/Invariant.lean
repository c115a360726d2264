import DbEngine.Index.Operations

/-!
# The representation invariant

What the pages of a store must be like below a root, read off the pages themselves: key
order, separators, occupancy, parent ids and the chain of leaves.  A run of calls keeps it.
-/

namespace DbEngine.Index

open Lib BPlusTree Tree

/-- The keys below a page, from left to right. -/
def keysAt (pages : PageId → Option Page) : Nat → PageId → List KeyType
  | 0, pid =>
    match pages pid with
    | some (.leaf leaf) => leaf.entries.map Prod.fst
    | _ => []
  | height + 1, pid =>
    match pages pid with
    | some (.internal node) => node.entries.flatMap fun slot => keysAt pages height slot.2
    | _ => []

/-- The leaves below a page, from left to right. -/
def leavesAt (pages : PageId → Option Page) : Nat → PageId → List PageId
  | 0, pid => [pid]
  | height + 1, pid =>
    match pages pid with
    | some (.internal node) =>
      node.entries.flatMap fun slot => leavesAt pages height slot.2
    | _ => []

/-- The pages `next_page_id_` leads to. -/
def followNext (pages : PageId → Option Page) : Nat → Option PageId → List PageId
  | 0, _ => []
  | _, none => []
  | bound + 1, some pid =>
    match pages pid with
    | some (.leaf leaf) => pid :: followNext pages bound leaf.nextPageId
    | _ => [pid]

/-- Between the minimum and the maximum size. -/
def Filled (pages : PageId → Option Page) (pid : PageId) : Prop :=
  ∃ page, pages pid = some page ∧ page.minSize ≤ page.size ∧ page.size ≤ page.maxSize

/-- A page and what is below it, `height` levels above the leaves: its parent id, its order,
and for a node the separators, the keys each child holds, and the size of each child. -/
def WellFormed (config : TreeConfig) (pages : PageId → Option Page) :
    Nat → Option PageId → PageId → Prop
  | 0, parent, pid => ∃ leaf, pages pid = some (.leaf leaf) ∧ leaf.parentPageId = parent ∧
      leaf.maxSize = config.leafMaxSize ∧ Ascending leaf.entries
  | height + 1, parent, pid => ∃ node, pages pid = some (.internal node) ∧
      node.parentPageId = parent ∧ node.maxSize = config.internalMaxSize ∧
      ((node.entries.drop 1).map Prod.fst).Pairwise (· < ·) ∧
      (∀ index slot, node.entries[index]? = some slot → ∀ key ∈ keysAt pages height slot.2,
        (0 < index → slot.1 ≤ key) ∧
          ∀ next, node.entries[index + 1]? = some next → key < next.1) ∧
      ∀ slot ∈ node.entries, Filled pages slot.2 ∧
        WellFormed config pages height (some pid) slot.2

/-- The pages below a root: none, or a tree with all leaves at one depth. -/
def TreeInvariant (config : TreeConfig) (pages : PageId → Option Page) :
    Option PageId → Prop
  | none => True
  | some root => ∃ height, WellFormed config pages height none root ∧
      (∃ page, pages root = some page ∧ (if height = 0 then 1 else 2) ≤ page.size ∧
        page.size ≤ page.maxSize) ∧
      ∀ bound, (leavesAt pages height root).length ≤ bound →
        followNext pages bound (leavesAt pages height root).head? =
          leavesAt pages height root

section

variable {config : TreeConfig} {pages : PageId → Option Page} {height : Nat}

/-- The store has these pages. -/
def Has (pages : PageId → Option Page) (heap : PageHeap Page) : Prop :=
  ∀ entry ∈ heap, pages entry.1 = some entry.2

variable {parent next : Option PageId} {children : List (KeyType × Tree height)} {pid : PageId}
  {heap : PageHeap Page}

lemma Has.tree {tree : Tree height} (has : Has pages (tree.pages config parent next)) :
    pages tree.pid = some (tree.page config parent next) :=
  has _ (tree.mem_pages parent next)

lemma Has.child (has : Has pages (rowPages config parent next children)) :
    ∀ child ∈ children, ∃ next, Has pages (child.2.pages config parent next) := by
  induction children with
  | nil =>
    intro child mem
    cases mem
  | cons first rest ih =>
    obtain ⟨key, tree⟩ := first
    rw [rowPages_cons] at has
    intro child mem
    rcases mem_cons.mp mem with rfl | later
    · exact ⟨_, fun entry here => has entry (Multiset.mem_add.mpr (.inl here))⟩
    · exact ih (fun entry here => has entry (Multiset.mem_add.mpr (.inr here))) child later

lemma Has.node (has : Has pages ((node pid children).pages config parent next)) :
    pages pid = some (nodePage config parent children) ∧
      ∀ child ∈ children, ∃ next, Has pages (child.2.pages config (some pid) next) := by
  rw [pages_node] at has
  exact ⟨has _ (mem_singleton_add _ _),
    Has.child fun entry here => has entry (Multiset.mem_add.mpr (.inr here))⟩

/-- What is read below a node, child by child. -/
lemma flatMap_slots {α : Type} (readAt : PageId → List α) {children : List (KeyType × Tree height)}
    {view : KeyType × Tree height → List α}
    (same : ∀ child ∈ children, readAt child.2.pid = view child) :
    ((slots children).flatMap fun slot => readAt slot.2) = children.flatMap view := by
  rw [slots, List.flatMap_map]
  exact List.flatMap_congr same

lemma keysAt_eq (tree : Tree height) (has : Has pages (tree.pages config parent next)) :
    keysAt pages height tree.pid = tree.toList.map Prod.fst := by
  induction height, tree using Tree.inductOn generalizing parent next with
  | leaf pid entries =>
    have here := has.tree
    simp only [keysAt]
    rw [here]
    rfl
  | @node height pid children ih =>
    obtain ⟨here, below⟩ := has.node
    have same : pages (node pid children).pid = _ := here
    rw [keysAt, same, toList_node, rowEntries, List.map_flatMap]
    refine flatMap_slots (keysAt pages height) fun child mem => ?_
    obtain ⟨next, childHas⟩ := below child mem
    exact ih child mem childHas

lemma leavesAt_eq (tree : Tree height) (has : Has pages (tree.pages config parent next)) :
    leavesAt pages height tree.pid = tree.leaves.map LeafNode.pid := by
  induction height, tree using Tree.inductOn generalizing parent next with
  | leaf pid entries => rfl
  | @node height pid children ih =>
    obtain ⟨here, below⟩ := has.node
    have same : pages (node pid children).pid = _ := here
    have leaves : (node pid children).leaves = rowLeaves children := rfl
    rw [leavesAt, same, leaves, rowLeaves, List.map_flatMap]
    refine flatMap_slots (leavesAt pages height) fun child mem => ?_
    obtain ⟨next, childHas⟩ := below child mem
    exact ih child mem childHas

/-! ## Nodes -/

lemma separators_sublist (children : List (KeyType × Tree height)) :
    (children.map fun child => sepMark child.1).Sublist (rowMarks children) := by
  induction children with
  | nil => exact List.Sublist.refl _
  | cons first rest ih =>
    exact List.Sublist.cons_cons _ (ih.trans (List.sublist_append_right _ _))

/-- The separators of a node in order are ascending. -/
lemma separators_ascending (inOrder : InOrder (node pid children).marks) :
    (((slots children).drop 1).map Prod.fst).Pairwise (· < ·) := by
  cases children with
  | nil => exact List.Pairwise.nil
  | cons first rest =>
    have marks : InOrder (rest.map fun child => sepMark child.1) := by
      refine inOrder.sublist ((separators_sublist rest).trans ?_)
      exact List.sublist_append_right _ _
    have same : ((slots (first :: rest)).drop 1).map Prod.fst = rest.map Prod.fst := by
      simp [slots]
    rw [same, pairwise_map]
    refine (pairwise_map.mp marks).imp ?_
    intro left right below
    exact sepMark_lt_sepMark.mp below

/-- A child holds only keys from its separator up to the next. -/
lemma keys_between {frame : Frame height} {child : Tree height}
    (inOrder : InOrder (frame.fill child).marks) (mem : key ∈ child.toList.map Prod.fst) :
    (frame.before ≠ [] → frame.key ≤ key) ∧ ∀ next ∈ frame.after.head?, key < next.1 := by
  have marked : keyMark key ∈ child.marks := by
    obtain ⟨entry, entryMem, rfl⟩ := mem_map.mp mem
    exact child.keyMarks_toList.subset (mem_map_of_mem entryMem)
  rw [Frame.marks_fill, inOrder_append, inOrder_append] at inOrder
  obtain ⟨⟨_, _, left⟩, _, right⟩ := inOrder
  refine ⟨fun nonempty => ?_, fun next isNext => ?_⟩
  · have separator : sepMark frame.key ∈
        (rowMarks frame.before ++ [sepMark frame.key]).tail := by
      cases listed : frame.before with
      | nil => exact absurd listed nonempty
      | cons first rest => exact mem_append_right _ (mem_singleton_self _)
    exact sepMark_lt_keyMark.mp (left _ separator _ marked)
  · have separator : sepMark next.1 ∈ rowMarks frame.after := by
      cases listed : frame.after with
      | nil =>
        rw [listed] at isNext
        cases isNext
      | cons first rest =>
        rw [listed] at isNext
        cases isNext
        exact mem_cons_self
    exact keyMark_lt_sepMark.mp (right _ (mem_append_right _ marked) _ separator)

/-- The child of a slot, and the children around it. -/
lemma slot_at {index : Nat} (isSlot : (slots children)[index]? = some slot) :
    ∃ (frame : Frame height) (child : Tree height),
      node pid children = frame.fill child ∧ slot = (frame.key, child.pid) ∧
      frame.before.length = index ∧ (slots children)[index + 1]? =
        frame.after.head?.map fun other => (other.1, other.2.pid) := by
  rw [slots, getElem?_map, map_eq_some_iff] at isSlot
  obtain ⟨child, isChild, rfl⟩ := isSlot
  obtain ⟨inside, rfl⟩ := getElem?_eq_some_iff.mp isChild
  have split : children = children.take index ++
      children[index] :: children.drop (index + 1) := by
    rw [← drop_eq_getElem_cons inside, take_append_drop]
  refine ⟨⟨pid, children.take index, children[index].1, children.drop (index + 1)⟩,
    children[index].2, congrArg (node pid) split, rfl, ?_, ?_⟩
  · exact List.length_take_of_le (Nat.le_of_lt inside)
  · rw [slots, getElem?_map, List.head?_drop]

lemma inOrder_child (inOrder : InOrder (node pid children).marks) :
    ∀ child ∈ children, InOrder child.2.marks := by
  intro child mem
  obtain ⟨before, after, rfl⟩ := List.append_of_mem mem
  have filled : node pid (before ++ child :: after) =
      (Frame.mk pid before child.1 after).fill child.2 := rfl
  rw [filled, Frame.marks_fill, inOrder_append, inOrder_append] at inOrder
  exact inOrder.1.2.1

lemma Tree.Fits.filled {tree : Tree height} (fits : tree.Fits config)
    (has : Has pages (tree.pages config parent next)) : Filled pages tree.pid := by
  refine ⟨_, has.tree, ?_, ?_⟩
  · rw [minSize_page, size_page]
    exact fits.1
  · rw [maxSize_page, size_page]
    exact fits.2.1

lemma wellFormed_of_inOrder (tree : Tree height)
    (has : Has pages (tree.pages config parent next)) (inOrder : InOrder tree.marks)
    (sized : tree.Sized config) : WellFormed config pages height parent tree.pid := by
  induction height, tree using Tree.inductOn generalizing parent next with
  | leaf pid entries =>
    exact ⟨_, has.tree, rfl, rfl, inOrder_keyMarks.mp inOrder⟩
  | @node height pid children ih =>
    obtain ⟨here, below⟩ := has.node
    refine ⟨_, here, rfl, rfl, separators_ascending inOrder, ?_, ?_⟩
    · intro index slot isSlot key mem
      obtain ⟨frame, child, filled, rfl, position, following⟩ := slot_at isSlot
      have listed : children = frame.before ++ (frame.key, child) :: frame.after :=
        (InnerNode.mk.inj filled).2
      obtain ⟨next, childHas⟩ := below (frame.key, child) (by simp [listed])
      rw [filled] at inOrder
      rw [keysAt_eq child childHas] at mem
      obtain ⟨lower, upper⟩ := keys_between inOrder mem
      refine ⟨fun later => lower ?_, fun next isNext => ?_⟩
      · rintro empty
        rw [← position, empty] at later
        exact absurd later (lt_irrefl 0)
      · rw [following] at isNext
        obtain ⟨other, isOther, rfl⟩ := map_eq_some_iff.mp isNext
        exact upper other isOther
    · intro slot mem
      obtain ⟨child, childMem, rfl⟩ := mem_map.mp mem
      obtain ⟨next, childHas⟩ := below child childMem
      have fits : child.2.Fits config := sized child childMem
      exact ⟨fits.filled childHas,
        ih child childMem childHas (inOrder_child inOrder child childMem) fits.2.2⟩

/-! ## The chain of leaves -/

lemma followNext_eq (has : Has pages heap) {leaves : List LeafNode}
    (chained : Chained config heap leaves none) (enough : leaves.length ≤ bound) :
    followNext pages bound (firstPid leaves none) = leaves.map LeafNode.pid := by
  induction leaves generalizing bound with
  | nil => cases bound <;> rfl
  | cons leaf rest ih =>
    cases bound with
    | zero => cases enough
    | succ bound =>
      obtain ⟨⟨parent, owned⟩, restChained⟩ := chained
      have page := has _ owned
      simp only [firstPid, followNext, page, map_cons]
      exact congrArg (List.cons leaf.pid) (ih restChained (Nat.le_of_succ_le_succ enough))

lemma head?_map_pid (leaves : List LeafNode) :
    (leaves.map LeafNode.pid).head? = firstPid leaves none := by
  cases leaves <;> rfl

/-- The pages of a stored tree satisfy the invariant. -/
lemma Stored.invariant (stored : Stored config root heap entries levels) (has : Has pages heap) :
    TreeInvariant config pages root := by
  cases stored with
  | empty => trivial
  | @tree whole valid =>
    refine ⟨whole.height, wellFormed_of_inOrder whole.tree has valid.inOrder valid.sized,
      ⟨_, has.tree, ?_, ?_⟩, ?_⟩
    · rw [size_page]
      exact valid.size.1
    · rw [size_page, maxSize_page]
      exact valid.size.2
    · intro bound enough
      have chained := whole.tree.chained valid.sized none none
        (fun _ mem => mem : _ ⊆ whole.tree.pages config none none)
      rw [leavesAt_eq whole.tree has, length_map] at enough
      rw [leavesAt_eq whole.tree has, head?_map_pid]
      exact followNext_eq has chained enough

end

/-! ## Runs -/

/-- From the empty tree, over any store, every run of calls ends without an error, and the
pages it leaves satisfy the invariant.  The run would stop short at a page with more than
one entry above its maximum or beyond its array, at a child that is not in its parent, and
at a node without a sibling. -/
theorem run_keeps_invariant (config : TreeConfig) (ops : List TreeOp)
    (small : ∀ op ∈ ops, op.Small) (store : PageStore Page) (unpinned : Unpinned store)
    (fuel : Nat) (enough : ops.length ≤ fuel) :
    ∃ outcomes root after,
      (TreeOp.performAll config fuel none ops).run .blank Page.fits store =
        .ok ((outcomes, root), after) ∧ TreeInvariant config after.pages root := by
  rcases meets_run config ops small store unpinned fuel enough with
    ⟨outcomes, root, after, heap, levels, ran, _, holds, stored⟩
  refine ⟨outcomes, root, after, ran, stored.invariant ?_⟩
  intro entry member
  exact (holds.stored entry member).1

theorem run_keeps_invariant_sampleOps : ∃ outcomes root after,
    (TreeOp.performAll smallConfig 9 none sampleOps).run .blank Page.fits emptyStore =
      .ok ((outcomes, root), after) ∧ TreeInvariant smallConfig after.pages root :=
  run_keeps_invariant smallConfig sampleOps (by decide) emptyStore (fun _ => rfl) 9 (by decide)

end DbEngine.Index
