import DbEngine.Index.Neighbours

/-!
# Moving entries between siblings

`MoveLastToFrontOf`, `MoveFirstToEndOf` and `MoveAllTo` on two neighbouring nodes.  Between
internal nodes an entry moves through the separator above them and the marks stay as they
are; between leaves the separator changes.
-/

namespace DbEngine.Index

open Lib BPlusTree Tree InternalPage

namespace Tree

lemma exists_leaf (tree : Tree 0) : ∃ pid entries, tree = leaf pid entries := ⟨_, _, rfl⟩

lemma exists_node (tree : Tree (height + 1)) :
    ∃ pid children, tree = node pid children := ⟨_, _, rfl⟩

end Tree

/-- Two neighbours after some of the entries of one have moved to the other. -/
structure Rebalanced (config : TreeConfig) {height : Nat} (left : Tree height)
    (middle : KeyType) (right left' : Tree height) (separator : KeyType)
    (right' : Tree height) : Prop where
  leftPid : left'.pid = left.pid
  rightPid : right'.pid = right.pid
  first : left'.firstLeaf = left.firstLeaf
  marks : Replaces (left'.marks ++ sepMark separator :: right'.marks)
    (left.marks ++ sepMark middle :: right.marks)
  entries : left'.toList ++ right'.toList = left.toList ++ right.toList
  leftFits : left'.Fits config
  rightFits : right'.Fits config

/-- A program that moves entries between two neighbours with one parent. -/
def Rebalances (budget : Budget) (config : TreeConfig) {height : Nat} (left : Tree height)
    (middle : KeyType) (right : Tree height) (parent after : Option PageId) (pins : Multiset PageId)
    (prog : TreeProg KeyType) : Prop :=
  TreeMeets budget (left.pages config parent right.firstLeaf + right.pages config parent after) pins
    prog fun separator heap pins' => pins' = pins ∧ ∃ left' right',
      Rebalanced config left middle right left' separator right' ∧
      heap = left'.pages config parent right'.firstLeaf + right'.pages config parent after

/-- Two neighbours that have become one. -/
structure Joined (config : TreeConfig) {height : Nat} (left : Tree height)
    (middle : KeyType) (right joined : Tree height) : Prop where
  pid : joined.pid = left.pid
  first : joined.firstLeaf = left.firstLeaf
  marks : Replaces joined.marks (left.marks ++ sepMark middle :: right.marks)
  entries : joined.toList = left.toList ++ right.toList
  fits : joined.Fits config

/-- A program that moves all entries to the left neighbour. -/
def Joins (budget : Budget) (config : TreeConfig) {height : Nat} (left : Tree height)
    (middle : KeyType) (right : Tree height) (parent after : Option PageId) (pins : Multiset PageId)
    (prog : TreeProg KeyType) : Prop :=
  TreeMeets budget (left.pages config parent right.firstLeaf + right.pages config parent after) pins
    prog fun _ heap pins' => pins' = pins ∧ ∃ joined gone,
      Joined config left middle right joined ∧
      heap = {(right.pid, gone)} + joined.pages config parent after

/-- Two pinned pages between which entries may move: the children that move with them need
one frame more. -/
structure Ready (budget : Budget) (pins : Multiset PageId) (left right : PageId) : Prop where
  left : left ∈ pins
  right : right ∈ pins
  room : budget.Room pins 1

section

variable {config : TreeConfig} {middle : KeyType} {parent after : Option PageId}
  {budget : Budget} {pins : Multiset PageId}

/-- Both pages are replaced, and the children that moved get their new parent. -/
lemma meets_moveEntries (config : TreeConfig) (rest : PageHeap Page)
    (oldSource oldRecipient : Page) (next : Option PageId) (children : List (KeyType × Tree height))
    (small : ∀ child ∈ children, child.2.size ≤ config.maxAt height)
    (sourceFits : source.fits = true) (recipientFits : recipient.fits = true)
    (sourcePinned : sourceId ∈ pins) (recipientPinned : recipientId ∈ pins)
    (room : budget.Room pins 1)
    (focus : heap = {(sourceId, oldSource)} + ({(recipientId, oldRecipient)} +
      (rowPages config (some sourceId) next children + rest))) : TreeMeets budget heap pins
      (moveEntries sourceId recipientId (some ⟨source, recipient, separator,
        children.map fun child => child.2.pid⟩)) fun result heap' pins' =>
        result = separator ∧ pins' = pins ∧
        heap' = {(sourceId, source)} + ({(recipientId, recipient)} +
          (rowPages config (some recipientId) next children + rest)) := by
  subst focus
  refine meets_writePage _ _ rfl sourcePinned sourceFits ?_
  refine meets_writePage oldRecipient ({(sourceId, source)} +
    (rowPages config (some sourceId) next children + rest)) (by ac_rfl) recipientPinned
    recipientFits ?_
  refine meets_updateChildParents (some sourceId) next
    ({(recipientId, recipient)} + {(sourceId, source)} + rest) room small (by ac_rfl) ?_
  refine meets_pure ⟨rfl, rfl, ?_⟩
  ac_rfl

section

variable {leftId rightId : PageId}

lemma rebalances_moveLast_leaf {kept entries : List (KeyType × Bytes)} (nonempty : kept ≠ [])
    (leftFits : (leaf leftId kept).Fits config)
    (rightFits : (leaf rightId (last :: entries)).Fits config)
    (ready : Ready budget pins leftId rightId) :
    Rebalances budget config (leaf leftId (kept ++ [last])) middle (leaf rightId entries) parent
      after pins (moveEntries leftId rightId (Page.moveLastToFrontOf
        (.leaf ⟨parent, config.leafMaxSize, some rightId, kept ++ [last]⟩)
        (.leaf ⟨parent, config.leafMaxSize, after, entries⟩) middle)) := by
  have moved : Page.moveLastToFrontOf
      (.leaf ⟨parent, config.leafMaxSize, some rightId, kept ++ [last]⟩)
      (.leaf ⟨parent, config.leafMaxSize, after, entries⟩) middle =
      some ⟨.leaf ⟨parent, config.leafMaxSize, some rightId, kept⟩,
        .leaf ⟨parent, config.leafMaxSize, after, last :: entries⟩, last.1, []⟩ := by
    simp [Page.moveLastToFrontOf, LeafPage.moveLastToFrontOf, LeafPage.keyAt]
  rw [moved]
  refine (meets_moveEntries config 0 _ _ none ([] : List (KeyType × Tree 0)) (by simp)
    (leftFits.fits_page _ _) (rightFits.fits_page _ _) ready.left ready.right ready.room
    rfl).mono ?_
  rintro separator heap pins' ⟨rfl, rfl, rfl⟩
  refine ⟨rfl, leaf leftId kept, leaf rightId (last :: entries),
    ⟨rfl, rfl, rfl, ?_, ?_, leftFits, rightFits⟩, rfl⟩
  · have joined := replaces_joinLeaf (kept ++ [last]) entries middle
    rw [← append_cons] at joined
    exact (replaces_splitLeaf nonempty entries).trans joined
  · exact append_cons kept last entries

lemma rebalances_moveLast_node (nonempty : kept ≠ []) (leftFits : (node leftId kept).Fits config)
    (rightFits : (node rightId ((key, child) :: (middle, first) :: rest)).Fits config)
    (ready : Ready budget pins leftId rightId) :
    Rebalances budget config (node leftId (kept ++ [(separator, child)])) middle
      (node rightId ((key, first) :: rest)) parent after pins (moveEntries leftId rightId
        (Page.moveLastToFrontOf (nodePage config parent (kept ++ [(separator, child)]))
          (nodePage config parent ((key, first) :: rest)) middle)) := by
  have moved : Page.moveLastToFrontOf (nodePage config parent (kept ++ [(separator, child)]))
      (nodePage config parent ((key, first) :: rest)) middle = some ⟨nodePage config parent kept,
        nodePage config parent ((key, child) :: (middle, first) :: rest),
        separator, [(separator, child)].map fun child => child.2.pid⟩ := by
    simp [Page.moveLastToFrontOf, moveLastToFrontOf, keyAt, valueAt, slots]
  have childFits := (rowFits_cons.mp rightFits.2.2).1
  rw [moved]
  refine (meets_moveEntries config (rowPages config (some leftId) child.firstLeaf kept +
      rowPages config (some rightId) after ((key, first) :: rest))
    (nodePage config parent (kept ++ [(separator, child)]))
    (nodePage config parent ((key, first) :: rest))
    first.firstLeaf [(separator, child)] (by simpa using childFits.2.1)
    (leftFits.fits_page _ none) (rightFits.fits_page _ none) ready.left ready.right ready.room
    ?_).mono ?_
  · rw [pages_node, pages_node, firstLeaf_node, firstOf_cons, rowPages_append, firstOf_cons]
    ac_rfl
  rintro separator heap pins' ⟨rfl, rfl, rfl⟩
  refine ⟨rfl, node leftId kept, node rightId ((key, child) :: (middle, first) :: rest),
    ⟨rfl, rfl, (firstLeaf_split leftId nonempty).symm, .of_eq ?_, ?_, leftFits, rightFits⟩, ?_⟩
  · rw [marks_split leftId rightId nonempty]
    simp [marks_node, rowMarks]
  · rw [toList_split _ _ leftId rightId]
    simp [toList_node, rowEntries]
  · rw [pages_node, pages_node, firstLeaf_node, firstOf_cons]
    simp only [rowPages_cons, rowPages_nil, firstOf_cons, firstOf_nil, add_zero]
    ac_rfl

/-- An entry moves from the left neighbour, which has one to spare. -/
lemma rebalances_moveLast {left right : Tree height} (leftFits : left.Fits config)
    (spare : config.minAt height < left.size) (rightSized : right.Sized config)
    (short : right.size + 1 = config.minAt height) (ready : Ready budget pins left.pid right.pid) :
    Rebalances budget config left middle right parent after pins (moveEntries left.pid right.pid
      ((left.page config parent right.firstLeaf).moveLastToFrontOf
        (right.page config parent after) middle)) := by
  have two := config.two_le_minAt height
  have bound := config.minAt_le_maxAt height
  cases height with
  | zero =>
    obtain ⟨leftId, leftEntries, rfl⟩ := left.exists_leaf
    obtain ⟨rightId, entries, rfl⟩ := right.exists_leaf
    rcases List.eq_nil_or_concat' leftEntries with rfl | ⟨kept, last, rfl⟩
    · cases spare
    rw [fits_leaf_iff] at leftFits
    simp only [size_leaf, length_append, length_singleton] at spare short leftFits
    refine rebalances_moveLast_leaf (ne_nil_of_length_pos (by omega))
      (fits_leaf_iff.mpr ⟨by omega, by omega⟩)
      (fits_leaf_iff.mpr ⟨?_, ?_⟩) ready
    · exact le_of_eq short.symm
    · exact le_trans (le_of_eq short) bound
  | succ height =>
    obtain ⟨leftId, leftChildren, rfl⟩ := left.exists_node
    obtain ⟨rightId, children, rfl⟩ := right.exists_node
    rcases List.eq_nil_or_concat' leftChildren with rfl | ⟨kept, ⟨separator, child⟩, rfl⟩
    · cases spare
    rcases children with _ | ⟨⟨key, first⟩, rest⟩
    · rw [size_node, length_nil] at short
      omega
    rw [fits_node_iff, rowFits_append, rowFits_cons] at leftFits
    simp only [size_node, length_append, length_cons, length_nil] at spare short leftFits
    refine rebalances_moveLast_node (ne_nil_of_length_pos (by omega))
      (fits_node_iff.mpr ⟨by omega, by omega, leftFits.2.2.1⟩)
      (fits_node_iff.mpr ⟨?_, ?_, ?_⟩) ready
    · exact le_of_eq short.symm
    · exact le_trans (le_of_eq short) bound
    · rw [sized_node, rowFits_cons] at rightSized
      rw [rowFits_cons, rowFits_cons]
      exact ⟨leftFits.2.2.2.1, rightSized⟩

end

section

variable {leftId rightId : PageId}

lemma rebalances_moveFirst_leaf {entries rest : List (KeyType × Bytes)}
    (leftFits : (leaf leftId (entries ++ [first])).Fits config)
    (rightFits : (leaf rightId (second :: rest)).Fits config)
    (ready : Ready budget pins leftId rightId) :
    Rebalances budget config (leaf leftId entries) middle (leaf rightId (first :: second :: rest))
      parent after pins (moveEntries rightId leftId (Page.moveFirstToEndOf
        (.leaf ⟨parent, config.leafMaxSize, after, first :: second :: rest⟩)
        (.leaf ⟨parent, config.leafMaxSize, some rightId, entries⟩) middle)) := by
  refine (meets_moveEntries config 0 _ _ none ([] : List (KeyType × Tree 0)) (by simp)
    (rightFits.fits_page parent after) (leftFits.fits_page parent (some rightId)) ready.right
    ready.left ready.room (add_comm _ _)).mono ?_
  rintro separator heap pins' ⟨rfl, rfl, rfl⟩
  refine ⟨rfl, leaf leftId (entries ++ [first]), leaf rightId (second :: rest),
    ⟨rfl, rfl, rfl, ?_, ?_, leftFits, rightFits⟩, add_comm _ _⟩
  · have joined := replaces_joinLeaf entries (first :: second :: rest) middle
    rw [append_cons] at joined
    have nonempty : entries ++ [first] ≠ [] := by simp
    exact (replaces_splitLeaf nonempty rest).trans joined
  · exact (append_cons entries first (second :: rest)).symm

lemma rebalances_moveFirst_node (nonempty : children ≠ [])
    (leftFits : (node leftId (children ++ [(middle, child)])).Fits config)
    (rightFits : (node rightId ((separator, second) :: rest)).Fits config)
    (ready : Ready budget pins leftId rightId) :
    Rebalances budget config (node leftId children) middle
      (node rightId ((key, child) :: (separator, second) :: rest)) parent after pins
      (moveEntries rightId leftId (Page.moveFirstToEndOf (nodePage config parent ((key, child) :: (separator, second) :: rest))
        (nodePage config parent children) middle)) := by
  have moved : Page.moveFirstToEndOf (nodePage config parent ((key, child) :: (separator, second) :: rest))
      (nodePage config parent children) middle =
      some ⟨nodePage config parent ((separator, second) :: rest),
        nodePage config parent (children ++ [(middle, child)]),
        separator, [(key, child)].map fun child => child.2.pid⟩ := by
    simp [Page.moveFirstToEndOf, moveFirstToEndOf, keyAt, valueAt, slots]
  have childFits := (rowFits_append.mp leftFits.2.2).2
  rw [moved]
  refine (meets_moveEntries config (rowPages config (some leftId) child.firstLeaf children +
      rowPages config (some rightId) after ((separator, second) :: rest))
    (nodePage config parent ((key, child) :: (separator, second) :: rest))
    (nodePage config parent children) second.firstLeaf
    [(key, child)] (by simpa using (rowFits_cons.mp childFits).1.2.1)
    (rightFits.fits_page _ none) (leftFits.fits_page _ none) ready.right ready.left ready.room
    ?_).mono ?_
  · rw [pages_node, pages_node, firstLeaf_node, firstOf_cons]
    simp only [rowPages_cons, rowPages_nil, firstOf_cons, firstOf_nil, add_zero]
    ac_rfl
  rintro separator heap pins' ⟨rfl, rfl, rfl⟩
  refine ⟨rfl, node leftId (children ++ [(middle, child)]),
    node rightId ((separator, second) :: rest),
    ⟨rfl, rfl, firstLeaf_split leftId nonempty, .of_eq ?_, ?_, leftFits, rightFits⟩, ?_⟩
  · rw [marks_split leftId rightId nonempty]
    simp [marks_node, rowMarks]
  · rw [toList_split _ _ leftId rightId]
    simp [toList_node, rowEntries]
  · rw [pages_node, pages_node, firstLeaf_node, firstOf_cons, rowPages_append]
    simp only [rowPages_cons, rowPages_nil, firstOf_cons, firstOf_nil, add_zero]
    ac_rfl

/-- An entry moves from the right neighbour, which has one to spare. -/
lemma rebalances_moveFirst {left right : Tree height} (rightFits : right.Fits config)
    (spare : config.minAt height < right.size) (leftSized : left.Sized config)
    (short : left.size + 1 = config.minAt height) (ready : Ready budget pins left.pid right.pid) :
    Rebalances budget config left middle right parent after pins (moveEntries right.pid left.pid
      ((right.page config parent after).moveFirstToEndOf
        (left.page config parent right.firstLeaf) middle)) := by
  have two := config.two_le_minAt height
  have bound := config.minAt_le_maxAt height
  cases height with
  | zero =>
    obtain ⟨leftId, entries, rfl⟩ := left.exists_leaf
    obtain ⟨rightId, rightEntries, rfl⟩ := right.exists_leaf
    rw [fits_leaf_iff] at rightFits
    simp only [size_leaf] at spare short
    rcases rightEntries with _ | ⟨first, _ | ⟨second, rest⟩⟩
    · cases spare
    · rw [length_singleton] at spare
      omega
    rw [length_cons] at spare rightFits
    refine rebalances_moveFirst_leaf (fits_leaf_iff.mpr ?_)
      (fits_leaf_iff.mpr ⟨by omega, by omega⟩) ready
    rw [length_append, length_singleton, short]
    exact ⟨le_rfl, bound⟩
  | succ height =>
    obtain ⟨leftId, children, rfl⟩ := left.exists_node
    obtain ⟨rightId, rightChildren, rfl⟩ := right.exists_node
    rw [fits_node_iff] at rightFits
    simp only [size_node] at spare short
    rcases rightChildren with _ | ⟨⟨key, child⟩, _ | ⟨⟨separator, second⟩, rest⟩⟩
    · cases spare
    · rw [length_singleton] at spare
      omega
    rw [length_cons] at spare rightFits
    obtain ⟨childFits, restFits⟩ := rowFits_cons.mp rightFits.2.2
    refine rebalances_moveFirst_node (ne_nil_of_length_pos (by omega))
      (fits_node_iff.mpr ?_) (fits_node_iff.mpr ⟨by omega, by omega, restFits⟩) ready
    rw [length_append, length_singleton, short, rowFits_append]
    exact ⟨le_rfl, bound, leftSized, rowFits_cons.mpr ⟨childFits, rowFits_nil⟩⟩

end

section

variable {leftId rightId : PageId}

lemma joins_moveAll_leaf (fits : (leaf leftId (lower ++ upper)).Fits config)
    (ready : Ready budget pins leftId rightId) :
    Joins budget config (leaf leftId lower) middle (leaf rightId upper) parent after pins
      (moveEntries rightId leftId (Page.moveAllTo (.leaf ⟨parent, config.leafMaxSize, after, upper⟩)
        (.leaf ⟨parent, config.leafMaxSize, some rightId, lower⟩) middle)) := by
  refine (meets_moveEntries config 0 _ _ none ([] : List (KeyType × Tree 0)) (by simp)
    (fits_leaf parent after (Nat.zero_le _)) (fits.fits_page parent after) ready.right
    ready.left ready.room (add_comm _ _)).mono ?_
  rintro _ heap pins' ⟨_, rfl, rfl⟩
  exact ⟨rfl, leaf leftId (lower ++ upper), _,
    ⟨rfl, rfl, replaces_joinLeaf lower upper middle, rfl, fits⟩, rfl⟩

lemma joins_moveAll_node {lower rest : List (KeyType × Tree height)} {first : Tree height}
    (nonempty : lower ≠ []) (fits : (node leftId (lower ++ (middle, first) :: rest)).Fits config)
    (ready : Ready budget pins leftId rightId) :
    Joins budget config (node leftId lower) middle (node rightId ((key, first) :: rest)) parent
      after pins (moveEntries rightId leftId (Page.moveAllTo
        (nodePage config parent ((key, first) :: rest))
        (nodePage config parent lower) middle)) := by
  have moved : Page.moveAllTo (nodePage config parent ((key, first) :: rest))
      (nodePage config parent lower) middle =
      some ⟨nodePage config parent ([] : List (KeyType × Tree height)),
        nodePage config parent (lower ++ (middle, first) :: rest),
        middle, ((middle, first) :: rest).map fun child => child.2.pid⟩ := by
    simp [Page.moveAllTo, moveAllTo, setKeyAt, slots]
  have upperFits := (rowFits_append.mp fits.2.2).2
  have small : (lower ++ (middle, first) :: rest).length ≤ config.internalMaxSize + 1 :=
    Nat.le_succ_of_le fits.2.1
  rw [moved]
  refine (meets_moveEntries config (rowPages config (some leftId) first.firstLeaf lower)
    (nodePage config parent ((key, first) :: rest))
    (nodePage config parent lower) after ((middle, first) :: rest)
    (fun child mem => (upperFits child mem).2.1) (fits_slots parent (Nat.zero_le _))
    (fits_slots parent small) ready.right ready.left ready.room ?_).mono ?_
  · rw [pages_node, pages_node, firstLeaf_node, firstOf_cons, rowPages_cons, rowPages_cons]
    ac_rfl
  rintro _ heap pins' ⟨_, rfl, rfl⟩
  refine ⟨rfl, node leftId (lower ++ (middle, first) :: rest),
    .internal ⟨parent, config.internalMaxSize, []⟩, ⟨rfl, firstLeaf_split leftId nonempty,
      .of_eq ?_, toList_split _ _ leftId rightId, fits⟩, ?_⟩
  · rw [marks_split leftId rightId nonempty]
    rfl
  · rw [pages_node, rowPages_append, firstOf_cons, add_comm (rowPages _ _ _ lower)]
    rfl

/-- Two neighbours that are too small for two nodes become one. -/
lemma joins_moveAll {left right : Tree height} (leftSized : left.Sized config)
    (rightSized : right.Sized config)
    (total : left.size + right.size + 1 = 2 * config.minAt height) (leftSome : 0 < left.size)
    (rightSome : 0 < right.size) (ready : Ready budget pins left.pid right.pid) :
    Joins budget config left middle right parent after pins (moveEntries right.pid left.pid
      ((right.page config parent after).moveAllTo
        (left.page config parent right.firstLeaf) middle)) := by
  have two := config.two_le_minAt height
  have bound : 2 * config.minAt height ≤ config.maxAt height + 1 := by
    unfold TreeConfig.minAt
    omega
  cases height with
  | zero =>
    obtain ⟨leftId, lower, rfl⟩ := left.exists_leaf
    obtain ⟨rightId, upper, rfl⟩ := right.exists_leaf
    simp only [size_leaf] at total
    refine joins_moveAll_leaf (fits_leaf_iff.mpr ?_) ready
    rw [length_append]
    omega
  | succ height =>
    obtain ⟨leftId, lower, rfl⟩ := left.exists_node
    obtain ⟨rightId, _ | ⟨⟨key, first⟩, rest⟩, rfl⟩ := right.exists_node
    · cases rightSome
    simp only [size_node, length_cons] at total leftSome
    refine joins_moveAll_node (ne_nil_of_length_pos leftSome) (fits_node_iff.mpr ⟨?_, ?_, ?_⟩) ready
    · rw [length_append, length_cons]
      omega
    · rw [length_append, length_cons]
      omega
    · rw [sized_node, rowFits_cons] at rightSized
      exact rowFits_append.mpr ⟨leftSized, rowFits_cons.mpr rightSized⟩

end

end

end DbEngine.Index
