import DbEngine.Index.Neighbours

/-!
# Insertion

`InsertIntoParent` puts a second subtree beside the first, and on the way up splits every
node that overflows.  A split changes the pages and never the marks.
-/

namespace DbEngine.Index

open Lib BPlusTree Tree Context

section

variable {config : TreeConfig} {height : Nat} {left right : Tree height}
  {middle : KeyType} {budget : Budget} {pins : Multiset PageId}

/-- A new root above two trees. -/
lemma meets_growRoot (leftFits : left.Fits config) (rightFits : right.Fits config)
    (room : budget.Room ({left.pid} + pins) 1) :
    TreeMeets budget (left.pages config none right.firstLeaf + right.pages config none none)
      ({left.pid} + pins) (growRoot config left.pid middle right.pid)
      fun result heap pins' => ∃ pid, result = some pid ∧
        heap = (node pid [(0, left), (middle, right)]).pages config none none ∧ pins' = pins := by
  have two : 2 ≤ config.internalMaxSize + 1 :=
    Nat.le_succ_of_le (le_trans (Nat.le_succ 2) config.internalBounds.1)
  refine meets_newPage room fun newRootId _ _ => ?_
  let top : Page := .internal ⟨none, config.internalMaxSize,
    slots [((0 : KeyType), left), (middle, right)]⟩
  refine meets_writePage _ _ rfl (by simp) (show top.fits = true from fits_slots none two) ?_
  refine meets_unpinPage _ rfl ?_
  rw [pages_eq left, pages_eq right]
  change TreeMeets budget ({(newRootId, top)} + _) _ _ _
  refine meets_setParent (left.page config none right.firstLeaf)
    ({(newRootId, top)} + left.below config right.firstLeaf +
      ({(right.pid, right.page config none none)} + right.below config none))
    (by ac_rfl) (by simp) ?_ ?_
  · rw [setParentPageId_page]
    exact fits_page left _ _ (Nat.le_succ_of_le leftFits.2.1)
  rw [setParentPageId_page]
  refine meets_fetchPage (right.page config none none) (by simp) room ?_
  refine meets_setParent (right.page config none none)
    ({(newRootId, top)} + ({(left.pid, left.page config (some newRootId) right.firstLeaf)} +
      left.below config right.firstLeaf) + right.below config none)
    (by ac_rfl) (by simp) ?_ ?_
  · rw [setParentPageId_page]
    exact fits_page right _ _ (Nat.le_succ_of_le rightFits.2.1)
  rw [setParentPageId_page]
  refine meets_unpinPage _ rfl (meets_unpinPage _ rfl (meets_pure ⟨newRootId, rfl, ?_, rfl⟩))
  rw [pages_node, rowPages_cons, rowPages_cons, rowPages_nil, pages_eq left, pages_eq right,
    add_zero, firstOf_cons, firstOf_nil]
  ac_rfl

end

section

variable {config : TreeConfig} {height : Nat} {budget : Budget} {pins : Multiset PageId}

/-- The two halves of an overfull node are nodes like any other. -/
lemma halves_fit (config : TreeConfig) (height : Nat) {lower upper : Nat}
    (overfull : lower + upper = config.maxAt height + 1)
    (half : lower = (config.maxAt height + 1) / 2) :
    (config.minAt height ≤ lower ∧ lower ≤ config.maxAt height) ∧
      config.minAt height ≤ upper ∧ upper ≤ config.maxAt height := by
  have large := config.three_le_maxAt height
  unfold TreeConfig.minAt
  omega

lemma fits_split {lower upper : List (KeyType × Tree height)} (pid newId : PageId)
    (fits : RowFits config (lower ++ upper))
    (overfull : (lower ++ upper).length = config.internalMaxSize + 1)
    (lowerLength : lower.length = (config.internalMaxSize + 1) / 2) :
    (node pid lower).Fits config ∧ (node newId upper).Fits config := by
  rw [length_append] at overfull
  obtain ⟨lowerSize, upperSize⟩ := halves_fit config (height + 1) overfull lowerLength
  obtain ⟨lowerFits, upperFits⟩ := rowFits_append.mp fits
  exact ⟨⟨lowerSize.1, lowerSize.2, lowerFits⟩, ⟨upperSize.1, upperSize.2, upperFits⟩⟩

lemma meets_splitInternal {parent next : Option PageId}
    {children : List (KeyType × Tree height)} (fits : RowFits config children)
    (overfull : children.length = config.internalMaxSize + 1) (pinned : parentId ∈ pins)
    (room : budget.Room pins 2) :
    TreeMeets budget ((node parentId children).pages config parent next) pins
      (splitInternal config leftId parentId) fun result heap pins' =>
        ∃ newId lower upKey first upper, children = lower ++ (upKey, first) :: upper ∧
          result = (upKey, newId) ∧ pins' = pins ∧ lower.length = (config.internalMaxSize + 1) / 2 ∧
          heap = (node parentId lower).pages config parent
              (node newId ((upKey, first) :: upper)).firstLeaf +
            (node newId ((upKey, first) :: upper)).pages config parent next := by
  have large := config.internalBounds.1
  let start := children.length / 2
  let lower := children.take start
  have short : start < children.length := by omega
  have lowerLength : lower.length = (config.internalMaxSize + 1) / 2 := by
    rw [length_take, Nat.min_eq_left (le_of_lt short)]
    exact congrArg (· / 2) overfull
  cases dropped : children.drop start with
  | nil =>
    have none := List.drop_eq_nil_iff.mp dropped
    omega
  | cons moved upper =>
    obtain ⟨upKey, first⟩ := moved
    have split : children = lower ++ (upKey, first) :: upper := by
      rw [← dropped, take_append_drop]
    have takes : (slots children).take ((slots children).length / 2) = slots lower := by
      simp only [slots, length_map, map_take, lower, start]
    have drops : (slots children).drop ((slots children).length / 2) =
        slots ((upKey, first) :: upper) := by
      rw [← dropped]
      simp only [slots, length_map, List.map_drop, start]
    have lowerSmall : lower.length ≤ config.internalMaxSize + 1 := by
      rw [lowerLength]
      exact Nat.div_le_self _ _
    have upperSmall : ((upKey, first) :: upper).length ≤ config.internalMaxSize + 1 := by
      rw [← dropped, length_drop, overfull]
      exact Nat.sub_le _ _
    have upperFits : ∀ child ∈ (upKey, first) :: upper,
        child.2.size ≤ config.maxAt height := by
      intro child mem
      rw [split] at fits
      exact (fits child (mem_append_right _ mem)).2.1
    let lowerPages := rowPages config (some parentId) first.firstLeaf lower
    let upperPages := rowPages config (some parentId) next ((upKey, first) :: upper)
    let lowerPage : Page := nodePage config parent lower
    let upperPage : Page :=
      nodePage config parent ((upKey, first) :: upper)
    have row : rowPages config (some parentId) next children = lowerPages + upperPages := by
      rw [split, rowPages_append, firstOf_cons]
    refine meets_newPage (room.mono (by decide)) fun newId _ _ => ?_
    rw [pages_node, row]
    refine meets_readInternal ⟨parent, config.internalMaxSize, slots children⟩ (by simp)
      (by simp [pinned]) ?_
    simp only [InternalPage.moveHalfTo, InternalPage.init, takes, drops]
    refine meets_writePage (nodePage config parent children)
      ({(newId, .blank)} + (lowerPages + upperPages)) (by ac_rfl) (by simp [pinned])
      (fits_slots parent lowerSmall) ?_
    refine meets_writePage .blank ({(parentId, lowerPage)} + (lowerPages + upperPages))
      (by ac_rfl) (by simp) (fits_slots parent upperSmall) ?_
    have moved : (slots ((upKey, first) :: upper)).map Prod.snd =
        ((upKey, first) :: upper).map fun child => child.2.pid := map_map
    rw [moved]
    refine meets_updateChildParents (some parentId) next
      ({(newId, upperPage)} + {(parentId, lowerPage)} + lowerPages) room.pin upperFits
      (by simp only [upperPage, upperPages]; ac_rfl) ?_
    refine meets_require rfl (meets_unpinPage pins rfl (meets_pure ?_))
    refine ⟨newId, lower, upKey, first, upper, split, rfl, rfl, lowerLength, ?_⟩
    rw [pages_node, pages_node, firstLeaf_node, firstOf_cons]
    simp only [lowerPage, upperPage, lowerPages]
    ac_rfl

end

/-! ## Up the tree -/

section

variable {config : TreeConfig} {budget : Budget} {pins : Multiset PageId}
variable {height : Nat} {left right : Tree height}

/-- The pages of two subtrees in a context, seen one level up.  The node above does not
have the second child in its slots yet. -/
lemma Context.pages_insideTwo (middle : KeyType) :
    (inside frame outer).pages config left.pid left.firstLeaf +
        (left.pages config (inside frame outer).parent right.firstLeaf +
          right.pages config (inside frame outer).parent (inside frame outer).next) =
      {(frame.pid, .internal ⟨outer.parent, config.internalMaxSize,
          slots frame.before ++ (frame.key, left.pid) :: slots frame.after⟩)} +
        (rowPages config (some frame.pid) outer.next
            (frame.before ++ (frame.key, left) :: (middle, right) :: frame.after) +
          outer.pages config frame.pid (frame.fillTwo left middle right).firstLeaf) := by
  rw [Frame.fillTwo, firstLeaf_node, firstOf_append, rowPages_append]
  simp only [pages, parent, next, firstOf_cons, rowPages_cons]
  ac_rfl

lemma insertNodeAfter_slot (fresh : ∀ slot ∈ slots before, slot.2 ≠ left.pid)
    (key middle : KeyType) (right : Tree height) (parent : Option PageId) (maxSize : Nat) :
    InternalPage.insertNodeAfter
        ⟨parent, maxSize, slots before ++ (key, left.pid) :: slots after⟩ left.pid middle
        right.pid =
      some ⟨parent, maxSize, slots (before ++ (key, left) :: (middle, right) :: after)⟩ := by
  have lengths : before.length = (slots before).length := by
    rw [slots, length_map]
  simp only [InternalPage.insertNodeAfter, valueIndex_slot fresh]
  rw [lengths, insertIdx_after_slot, slots_append]
  rfl

lemma meets_insertIntoParent (context : Context height) {middle : KeyType} {depth : Nat}
    (deep : context.depth < depth)
    (inOrder : InOrder (context.leftMarks ++ (left.marks ++ sepMark middle :: right.marks) ++
      context.rightMarks)) (sized : context.Sized config) (leftFits : left.Fits config)
    (rightFits : right.Fits config) (room : budget.Room pins (context.depth + 2))
    (pinned : left.pid ∈ pins) : TreeMeets budget (context.pages config left.pid left.firstLeaf +
        (left.pages config context.parent right.firstLeaf +
          right.pages config context.parent context.next)) pins
      (insertIntoParent config depth (some (context.rootId left.pid)) left.pid middle
        right.pid) fun result heap pins' =>
        ∃ whole : AnyTree, whole.Valid config ∧ result = some whole.tree.pid ∧
          heap = whole.tree.pages config none none ∧ pins' = pins ∧
          whole.tree.toList = context.leftEntries ++ (left.toList ++ right.toList) ++
            context.rightEntries ∧ whole.height ≤ height + context.depth + 1 := by
  induction context generalizing depth middle pins with
  | root =>
    cases depth with
    | zero => cases deep
    | succ depth =>
      rw [show Context.pages config .root left.pid left.firstLeaf = 0 from rfl, zero_add]
      have owned : (left.pid, left.page config none right.firstLeaf) ∈
          left.pages config none right.firstLeaf + right.pages config none none :=
        Multiset.mem_add.mpr (.inl (left.mem_pages _ _))
      have roomy : budget.Room pins 1 := room.mono (Nat.le_add_left _ _)
      refine meets_fetchPage _ owned roomy (meets_readPage _ owned (by simp) ?_)
      rw [parentPageId_page]
      refine (meets_growRoot leftFits rightFits (roomy.repin pinned)).mono ?_
      rintro result heap pins' ⟨pid, rfl, rfl, rfl⟩
      refine ⟨⟨_, node pid [(0, left), (middle, right)]⟩, ⟨?_, ⟨le_refl 2, ?_⟩, ?_⟩,
        rfl, rfl, rfl, ?_, le_rfl⟩
      · have marks : (node pid [((0 : KeyType), left), (middle, right)]).marks =
            left.marks ++ sepMark middle :: (right.marks ++ []) := rfl
        rw [marks]
        simpa [leftMarks, rightMarks] using inOrder
      · exact le_trans (Nat.le_succ 2) config.internalBounds.1
      · exact rowFits_cons.mpr ⟨leftFits, rowFits_cons.mpr ⟨rightFits, rowFits_nil⟩⟩
      · have entries : (node pid [((0 : KeyType), left), (middle, right)]).toList =
            left.toList ++ (right.toList ++ []) := rfl
        rw [entries]
        simp [leftEntries, rightEntries]
  | inside frame outer ih =>
    cases depth with
    | zero => cases deep
    | succ depth =>
      refine Meets.of_nodup fun nodup => ?_
      have fresh := fresh_slots nodup (by
        rw [Multiset.map_add]
        exact Multiset.mem_add.mpr (.inl (pid_mem_pages left _ _)))
      obtain ⟨beforeFits, afterFits, allows, outerSized⟩ := sized
      let children := frame.before ++ (frame.key, left) :: (middle, right) :: frame.after
      have childrenFit : RowFits config children := by
        simp only [children, rowFits_append, rowFits_cons]
        exact ⟨beforeFits, leftFits, rightFits, afterFits⟩
      have length : children.length =
          (frame.before.length + 1 + frame.after.length) + 1 := by
        simp only [children, length_append, length_cons]
        omega
      have small : children.length ≤ config.internalMaxSize + 1 := by
        rw [length]
        exact Nat.succ_le_succ allows.2
      have counted : (slots children).length = children.length := length_map _
      have marks : (Context.inside frame outer).leftMarks ++
          (left.marks ++ sepMark middle :: right.marks) ++
            (Context.inside frame outer).rightMarks =
          outer.leftMarks ++ (node frame.pid children).marks ++ outer.rightMarks := by
        rw [show node frame.pid children = frame.fillTwo left middle right from rfl,
          Frame.marks_fillTwo]
        simp [leftMarks, rightMarks]
      have entries : (Context.inside frame outer).leftEntries ++
          (left.toList ++ right.toList) ++ (Context.inside frame outer).rightEntries =
          outer.leftEntries ++ (node frame.pid children).toList ++ outer.rightEntries := by
        rw [show node frame.pid children = frame.fillTwo left middle right from rfl,
          Frame.toList_fillTwo]
        simp [leftEntries, rightEntries]
      rw [marks] at inOrder
      have roomAbove : budget.Room ({frame.pid} + ({left.pid} + pins)) (outer.depth + 2) :=
        (room.repin pinned).pin
      refine meets_fetchPage (left.page config (some frame.pid) right.firstLeaf)
        (mem_add_pages _ _ _ _) (room.mono (Nat.le_add_left _ _)) ?_
      refine meets_readPage (left.page config (some frame.pid) right.firstLeaf)
        (mem_add_pages _ _ _ _) (by simp) ?_
      rw [parentPageId_page, pages_insideTwo middle]
      refine meets_fetchPage _ (mem_singleton_add _ _)
        ((room.repin pinned).mono (Nat.le_add_left _ _)) ?_
      refine meets_readInternal _ (mem_singleton_add _ _) (by simp) ?_
      refine meets_require (insertNodeAfter_slot fresh _ _ _ _ _) ?_
      refine meets_writePage _ _ rfl (by simp) (fits_slots _ small) ?_
      have regroup := add_assoc {((frame.pid, .internal ⟨outer.parent,
        config.internalMaxSize, slots children⟩) : PageId × Page)}
        (rowPages config (some frame.pid) outer.next children)
        (outer.pages config frame.pid (node frame.pid children).firstLeaf)
      rw [← pages_node] at regroup
      rw [entries]
      change TreeMeets budget ({(frame.pid, .internal ⟨outer.parent,
        config.internalMaxSize, slots children⟩)} +
        (rowPages config (some frame.pid) outer.next children +
        outer.pages config frame.pid (node frame.pid children).firstLeaf)) _ _ _
      rw [← regroup]
      split
      next overfull =>
        have full : children.length = config.internalMaxSize + 1 :=
          le_antisymm small (lt_of_lt_of_eq overfull counted)
        refine meets_bind (Meets.frame (meets_splitInternal childrenFit full (by simp)
          (roomAbove.mono (Nat.le_add_left _ _)))
          (outer.pages config frame.pid (node frame.pid children).firstLeaf)) ?_
        rintro result heap pins'
          ⟨own, rfl, newId, lower, upKey, first, upper, split, rfl, rfl, lowerLength, rfl⟩
        have nonempty : lower ≠ [] := by
          have large := config.internalBounds.1
          rintro rfl
          rw [length_nil] at lowerLength
          omega
        rw [split] at childrenFit full inOrder ⊢
        obtain ⟨lowerFits, upperFits⟩ := fits_split frame.pid newId childrenFit full lowerLength
        rw [marks_split frame.pid newId nonempty] at inOrder
        rw [firstLeaf_split frame.pid nonempty, toList_split _ _ frame.pid newId, add_comm]
        refine meets_bind (Meets.onFail (ih (Nat.lt_of_succ_lt_succ deep) inOrder
          outerSized lowerFits upperFits roomAbove
          (show frame.pid ∈ _ by simp))) ?_
        rintro root heap pins' ⟨whole, valid, rfl, rfl, rfl, listed, low⟩
        refine meets_unpinPage _ rfl (meets_unpinPage _ rfl (meets_pure
          ⟨whole, valid, rfl, rfl, rfl, listed, ?_⟩))
        rw [Context.depth]
        omega
      next roomy =>
        refine meets_unpinPage _ rfl (meets_unpinPage _ rfl (meets_pure
          ⟨outer.plug (node frame.pid children), ?_, ?_, ?_, rfl, ?_, ?_⟩))
        · refine valid_plug.mpr ⟨inOrder, outerSized, ⟨?_, ?_⟩, childrenFit⟩
          · exact le_trans allows.1 (le_trans (Nat.le_succ _) (le_of_eq length.symm))
          · exact le_trans (le_of_eq counted.symm) (not_lt.mp roomy)
        · rw [pid_plug]
          rfl
        · rw [pages_plug, add_comm]
          rfl
        · exact outer.toList_plug _
        · rw [height_plug, Context.depth]
          omega

end

/-! ## Leaves -/

section

variable {config : TreeConfig} {budget : Budget} {pins : Multiset PageId} {key : KeyType}
  {value : Bytes}

/-- A key goes where it belongs. -/
lemma inOrder_insertEntry (inOrder : InOrder (before ++ keyMarks entries ++ after))
    (below : ∀ mark ∈ before, mark < keyMark key) (above : ∀ mark ∈ after, keyMark key < mark) :
    InOrder (before ++ keyMarks (insertEntry key value entries) ++ after) := by
  rw [inOrder_append, inOrder_append] at inOrder ⊢
  obtain ⟨⟨beforeOrder, entriesOrder, left⟩, afterOrder, right⟩ := inOrder
  refine ⟨⟨beforeOrder, ?_, ?_⟩, afterOrder, ?_⟩
  · exact inOrder_keyMarks.mpr ((inOrder_keyMarks.mp entriesOrder).insertEntry key value)
  · intro mark mem mark' mem'
    obtain ⟨entry, entryMem, rfl⟩ := mem_map.mp mem'
    rcases mem_insertEntry entryMem with rfl | old
    · exact below mark mem
    · exact left mark mem _ (mem_map_of_mem old)
  · intro mark mem mark' mem'
    rcases mem_append.mp mem with inBefore | inserted
    · exact right mark (mem_append_left _ inBefore) mark' mem'
    · obtain ⟨entry, entryMem, rfl⟩ := mem_map.mp inserted
      rcases mem_insertEntry entryMem with rfl | old
      · exact above mark' mem'
      · exact right _ (mem_append_right _ (mem_map_of_mem old)) mark' mem'

lemma fits_splitLeaf (pid newId : PageId)
    (overfull : (lower ++ upper).length = config.leafMaxSize + 1)
    (lowerLength : lower.length = (config.leafMaxSize + 1) / 2) :
    (leaf pid lower).Fits config ∧ (leaf newId upper).Fits config := by
  rw [length_append] at overfull
  obtain ⟨lowerSize, upperSize⟩ := halves_fit config 0 overfull lowerLength
  exact ⟨⟨lowerSize.1, lowerSize.2, trivial⟩, ⟨upperSize.1, upperSize.2, trivial⟩⟩

lemma meets_splitLeaf {parent next : Option PageId}
    (overfull : entries.length = config.leafMaxSize + 1) (pinned : leafId ∈ pins)
    (room : budget.Room pins 1) :
    TreeMeets budget ((leaf leafId entries).pages config parent next) pins
      (splitLeaf config leafId) fun result heap pins' => ∃ newId lower key value upper,
          entries = lower ++ (key, value) :: upper ∧
          result = (key, newId) ∧ pins' = {newId} + pins ∧
          lower.length = (config.leafMaxSize + 1) / 2 ∧
          heap = (leaf leafId lower).pages config parent (some newId) +
            (leaf newId ((key, value) :: upper)).pages config parent next := by
  have large := config.leafBounds.1
  have short : entries.length / 2 < entries.length := by omega
  cases dropped : entries.drop (entries.length / 2) with
  | nil =>
    have none := List.drop_eq_nil_iff.mp dropped
    omega
  | cons moved upper =>
    obtain ⟨key, value⟩ := moved
    let lower := entries.take (entries.length / 2)
    have split : entries = lower ++ (key, value) :: upper := by
      rw [← dropped, take_append_drop]
    have lowerLength : lower.length = (config.leafMaxSize + 1) / 2 := by
      rw [length_take, Nat.min_eq_left (le_of_lt short), overfull]
    have lowerSmall : lower.length ≤ config.leafMaxSize + 1 := by
      rw [lowerLength]
      exact Nat.div_le_self _ _
    have upperSmall : ((key, value) :: upper).length ≤ config.leafMaxSize + 1 := by
      rw [← dropped, length_drop, overfull]
      exact Nat.sub_le _ _
    rw [pages_leaf]
    refine meets_newPage room fun newId _ _ => ?_
    refine meets_readLeaf ⟨parent, config.leafMaxSize, next, entries⟩ (by simp)
      (by simp [pinned]) ?_
    simp only [LeafPage.moveHalfTo, LeafPage.init, dropped]
    refine meets_writePage (.leaf ⟨parent, config.leafMaxSize, next, entries⟩)
      {(newId, .blank)} (by ac_rfl) (by simp [pinned])
      (fits_leaf parent (some newId) lowerSmall) ?_
    refine meets_writePage .blank {(leafId, .leaf ⟨parent, config.leafMaxSize, some newId, lower⟩)}
      (by ac_rfl) (by simp) (fits_leaf parent next upperSmall) ?_
    refine meets_require rfl (meets_pure ?_)
    refine ⟨newId, lower, key, value, upper, split, rfl, rfl, lowerLength, ?_⟩
    rw [pages_leaf, pages_leaf, add_comm]

/-- `Insert` into an empty tree makes a leaf. -/
lemma meets_insertFirst (small : value.length ≤ MAX_VALUE_SIZE) (room : budget.Room pins 1) :
    TreeMeets budget 0 pins (insertFirst config key value) fun result heap pins' =>
      ∃ pid, result = (true, some pid) ∧
        heap = (leaf pid [(key, value)]).pages config none none ∧ pins' = pins := by
  have large := config.leafBounds.1
  refine meets_newPage room fun newId _ _ => ?_
  have inserted : (LeafPage.init none config.leafMaxSize).insert key value =
      .ok ⟨none, config.leafMaxSize, none, [(key, value)]⟩ :=
    LeafPage.insert_eq ascending_nil key small
  simp only [inserted]
  refine meets_writePage .blank 0 rfl (by simp) (fits_leaf none none ?_) ?_
  · simp
  · exact meets_unpinPage pins rfl (meets_pure ⟨newId, rfl, rfl, rfl⟩)

lemma valid_leaf (config : TreeConfig) (pid : PageId) (key : KeyType) (value : Bytes) :
    AnyTree.Valid config ⟨0, leaf pid [(key, value)]⟩ where
  inOrder := pairwise_singleton _ _
  size := ⟨le_refl 1, le_trans (show 1 ≤ 3 by decide) config.leafBounds.1⟩
  sized := trivial

/-- `Insert` puts an entry into the tree, over an older one of the same key. -/
lemma meets_insert {whole : AnyTree} (valid : whole.Valid config) {depth : Nat}
    (enough : whole.height < depth) (room : budget.Room pins (whole.height + 4)) (key : KeyType)
    (small : value.length ≤ MAX_VALUE_SIZE) :
    TreeMeets budget (whole.tree.pages config none none) pins
      (insert config depth (some whole.tree.pid) key value) fun result heap pins' =>
        ∃ whole' : AnyTree, whole'.Valid config ∧
          result = (decide (lookupEntry key whole.tree.toList = none), some whole'.tree.pid) ∧
          heap = whole'.tree.pages config none none ∧ pins' = pins ∧
          whole'.tree.toList = insertEntry key value whole.tree.toList ∧
          whole'.height ≤ whole.height + 1 := by
  refine meets_fetchPage _ (whole.tree.mem_pages none none) (room.mono (by omega)) ?_
  refine meets_bind (meets_findLeaf valid enough (room.mono (by omega)) key) ?_
  rintro leafId heap pins' ⟨context, entries, rfl, reaches, rfl, rfl⟩
  obtain ⟨inOrder, sized, allows, _⟩ := valid_plug.mp valid
  have ascending : Ascending entries :=
    inOrder_keyMarks.mp (inOrder_append.mp (inOrder_append.mp inOrder).1).2.1
  have looked : _ = lookupEntry key entries := reaches.lookup (leaf leafId entries)
  have inserted : insertEntry key value (context.plug (leaf leafId entries)).tree.toList =
      context.leftEntries ++ insertEntry key value entries ++ context.rightEntries := by
    rw [toList_plug]
    exact insertEntry_middle reaches.below reaches.above
  have ordered : InOrder (context.leftMarks ++
      keyMarks (insertEntry key value entries) ++ context.rightMarks) :=
    inOrder_insertEntry inOrder reaches.left reaches.right
  have length := ascending.length_insertEntry key value
  have larger : entries.length ≤ (insertEntry key value entries).length :=
    length ▸ Nat.le_add_right _ _
  have small' : (insertEntry key value entries).length ≤ config.leafMaxSize + 1 := by
    have before : entries.length ≤ config.leafMaxSize := allows.2
    rw [length]
    split <;> omega
  have isNew : decide (entries.length < (insertEntry key value entries).length) =
      decide (lookupEntry key entries = none) := by
    rw [length, decide_eq_decide]
    split <;> simp [*]
  rw [looked, inserted, ← isNew]
  rw [height_plug, zero_add] at room
  have leafRoom : budget.Room ({leafId} + pins) 1 := room.pin.mono (Nat.le_add_left _ _)
  refine meets_readLeaf _ (mem_singleton_add _ _) (by simp) ?_
  rw [LeafPage.insert_eq ascending key small]
  refine meets_writePage _ _ rfl (by simp) (fits_leaf _ _ small') ?_
  split
  next overfull =>
    have full : (insertEntry key value entries).length = config.leafMaxSize + 1 :=
      le_antisymm small' overfull
    refine meets_bind (Meets.frame (meets_splitLeaf full (by simp) leafRoom)
      (context.pages config leafId (some leafId))) ?_
    rintro result heap pins'
      ⟨own, rfl, newId, lower, middle, moved, upper, split, rfl, rfl, lowerLength, rfl⟩
    have nonempty : lower ≠ [] := by
      have large := config.leafBounds.1
      rintro rfl
      rw [length_nil] at lowerLength
      omega
    rw [split] at full ordered ⊢
    obtain ⟨lowerFits, upperFits⟩ := fits_splitLeaf leafId newId full lowerLength
    have shallow : context.depth < depth := by
      rw [height_plug, zero_add] at enough
      exact enough
    rw [add_comm, pid_plug]
    refine meets_bind (Meets.onFail (meets_insertIntoParent context shallow
      (replaces_splitLeaf nonempty upper _ _ ordered) sized lowerFits upperFits room.pin.pin
      (show leafId ∈ _ by simp))) ?_
    rintro root heap pins' ⟨whole, valid, rfl, rfl, rfl, listed, low⟩
    refine meets_unpinPage _ rfl (meets_unpinPage pins rfl (meets_pure
      ⟨whole, valid, rfl, rfl, rfl, listed, ?_⟩))
    rw [height_plug]
    exact low
  next roomy =>
    refine meets_unpinPage pins rfl (meets_pure
      ⟨context.plug (leaf leafId (insertEntry key value entries)), ?_, ?_, ?_, rfl, ?_, ?_⟩)
    · exact valid_plug.mpr ⟨ordered, sized, ⟨le_trans allows.1 larger, not_lt.mp roomy⟩, trivial⟩
    · rw [pid_plug, pid_plug]
      rfl
    · rw [pages_plug, add_comm]
      rfl
    · exact context.toList_plug _
    · rw [height_plug, height_plug]
      exact Nat.le_succ _

end

end DbEngine.Index
