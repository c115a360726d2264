import DbEngine.Index.Siblings

/-!
# Removal

`HandleUnderflow` repairs a node that has lost an entry: it takes one from a sibling, or
merges with one and goes on with the parent, up to the root.
-/

namespace DbEngine.Index

open Multiset (map_add mem_add nodup_add)
open Lib BPlusTree Tree Context Frame

/-- One subtree may stand in the place of another. -/
structure Restores (config : TreeConfig) {height : Nat} (tree tree' : Tree height) :
    Prop where
  pid : tree'.pid = tree.pid
  first : tree'.firstLeaf = tree.firstLeaf
  marks : Replaces tree'.marks tree.marks
  entries : tree'.toList = tree.toList
  sized : tree'.Sized config

section

variable {config : TreeConfig} {height : Nat} {frame : Frame height}
  {left right : Tree height} {middle : KeyType}

/-- The other children fit, and there are not too many with one more. -/
structure Frame.Fits (config : TreeConfig) (frame : Frame height) : Prop where
  before : RowFits config frame.before
  after : RowFits config frame.after
  small : frame.before.length + 1 + frame.after.length ≤ config.internalMaxSize

lemma Frame.size_fillTwo (frame : Frame height) (left right : Tree height)
    (middle : KeyType) : (frame.fillTwo left middle right).size =
      frame.before.length + 1 + frame.after.length + 1 := by
  simp only [fillTwo, size_node, length_append, length_cons]
  omega

lemma Frame.pages_fillTwo (frame : Frame height) (left right : Tree height)
    (middle : KeyType) (parent next : Option PageId) :
    (frame.fillTwo left middle right).pages config parent next =
      {(frame.pid, .internal ⟨parent, config.internalMaxSize, slots frame.before ++
        (frame.key, left.pid) :: (middle, right.pid) :: slots frame.after⟩)} +
      (left.pages config (some frame.pid) right.firstLeaf +
        right.pages config (some frame.pid) (firstOf frame.after next) +
        (rowPages config (some frame.pid) left.firstLeaf frame.before +
          rowPages config (some frame.pid) next frame.after)) := by
  rw [fillTwo, pages_node, nodePage, slots_append, rowPages_append, rowPages_cons, rowPages_cons,
    firstOf_cons, firstOf_cons]
  simp only [slots, map_cons]
  ac_rfl

lemma Frame.mem_fill (config : TreeConfig) (frame : Frame height) (child : Tree height)
    (parent next : Option PageId) :
    (frame.pid, .internal ⟨parent, config.internalMaxSize, slots frame.before ++
        (frame.key, child.pid) :: slots frame.after⟩) ∈
      (frame.fill child).pages config parent next := by
  rw [← frame.page_fill child parent next]
  exact mem_pages _ _ _

lemma Frame.mem_child (config : TreeConfig) (frame : Frame height) (child : Tree height)
    (parent next : Option PageId) :
    (child.pid, child.page config (some frame.pid) (firstOf frame.after next)) ∈
      (frame.fill child).pages config parent next := by
  rw [pages_eq, below_fill]
  simp only [mem_add, mem_pages, true_or, or_true]

/-- The node and its two children are among its pages. -/
lemma Frame.mem_fillTwo (config : TreeConfig) (frame : Frame height)
    (left right : Tree height) (middle : KeyType) (parent next : Option PageId) :
    (frame.pid, .internal ⟨parent, config.internalMaxSize, slots frame.before ++
        (frame.key, left.pid) :: (middle, right.pid) :: slots frame.after⟩) ∈
      (frame.fillTwo left middle right).pages config parent next ∧
    (left.pid, left.page config (some frame.pid) right.firstLeaf) ∈
      (frame.fillTwo left middle right).pages config parent next ∧
    (right.pid, right.page config (some frame.pid) (firstOf frame.after next)) ∈
      (frame.fillTwo left middle right).pages config parent next := by
  rw [pages_fillTwo]
  simp only [mem_add, Multiset.mem_singleton, mem_pages, true_or, or_true, and_self]

lemma Rebalanced.restores (rebalanced : Rebalanced config left middle right left' separator right')
    (fits : frame.Fits config) : Restores config (frame.fillTwo left middle right)
      (frame.fillTwo left' separator right') where
  pid := rfl
  first := by
    simp only [fillTwo, firstLeaf_node, firstOf_append, firstOf_cons, rebalanced.first]
  marks := by
    rw [marks_fillTwo, marks_fillTwo]
    exact rebalanced.marks.append _ _
  entries := by
    rw [toList_fillTwo, toList_fillTwo, rebalanced.entries]
  sized := by
    rw [fillTwo, sized_node, rowFits_append, rowFits_cons, rowFits_cons]
    exact ⟨fits.before, rebalanced.leftFits, rebalanced.rightFits, fits.after⟩

lemma Joined.restores (isJoined : Joined config left middle right joined)
    (fits : frame.Fits config) :
    Restores config (frame.fillTwo left middle right) (frame.fill joined) where
  pid := rfl
  first := by
    simp only [fillTwo, firstLeaf_fill, firstLeaf_node, firstOf_append,
      firstOf_cons, isJoined.first]
  marks := by
    rw [marks_fillTwo, marks_fill]
    exact isJoined.marks.append _ _
  entries := by
    rw [toList_fillTwo, toList_fill, isJoined.entries]
  sized := (frame.sized_fill joined).mpr ⟨fits.before, isJoined.fits, fits.after⟩

end

/-! ## The slots of two neighbours -/

section

variable {height : Nat} {before : List (KeyType × Tree height)} {first item : KeyType × PageId}
  {after : List (KeyType × PageId)} {parent : Option PageId} {maxSize : Nat}

lemma valueAt_slot :
    InternalPage.valueAt ⟨parent, maxSize, slots before ++ first :: after⟩ before.length =
      some first.2 := by
  simp [InternalPage.valueAt, slots]

lemma valueAt_next : InternalPage.valueAt ⟨parent, maxSize, slots before ++ first :: item :: after⟩
      (before.length + 1) = some item.2 := by
  simp [InternalPage.valueAt, slots]

lemma keyAt_next : InternalPage.keyAt ⟨parent, maxSize, slots before ++ first :: item :: after⟩
      (before.length + 1) = some item.1 := by
  simp [InternalPage.keyAt, slots]

lemma setKeyAt_next (key : KeyType) :
    InternalPage.setKeyAt ⟨parent, maxSize, slots before ++ first :: item :: after⟩
      (before.length + 1) key =
        ⟨parent, maxSize, slots before ++ first :: (key, item.2) :: after⟩ := by
  have position : before.length + 1 = (slots before ++ [first]).length := by simp [slots]
  rw [InternalPage.setKeyAt, position, append_cons, modify_slot]
  simp

lemma remove_next : InternalPage.remove ⟨parent, maxSize, slots before ++ first :: item :: after⟩
      (before.length + 1) = ⟨parent, maxSize, slots before ++ first :: after⟩ := by
  have position : before.length + 1 = (slots before ++ [first]).length := by simp [slots]
  rw [InternalPage.remove, position, append_cons, eraseIdx_slot]
  simp

end

/-! ## Borrowing -/

/-- What an attempt to borrow leaves: the tree as it was, if `poor` holds of the sibling,
or with an entry moved. -/
inductive Borrowed (config : TreeConfig) {height : Nat} (tree : Tree (height + 1))
    (parent next : Option PageId) (poor : Prop) : Bool → PageHeap Page → Prop where
  | refused (isPoor : poor) :
      Borrowed config tree parent next poor false (tree.pages config parent next)
  | taken {tree' : Tree (height + 1)} (restores : Restores config tree tree')
      (size : tree'.size = tree.size) :
      Borrowed config tree parent next poor true (tree'.pages config parent next)

section

variable {config : TreeConfig} {height : Nat} {frame : Frame height}
  {left right : Tree height} {middle : KeyType} {parent next : Option PageId}
  {budget : Budget} {pins : Multiset PageId}

variable {poor : Prop} {pid : PageId} {before after : List (KeyType × Tree height)} {key : KeyType}

/-- Entries move between two children, the separator in their parent changes, and the page
that has given them is let go. -/
lemma meets_rebalance (fits : frame.Fits config) (parentPinned : frame.pid ∈ pins)
    (moves : Rebalances budget config left middle right (some frame.pid) (firstOf frame.after next)
      ({donor} + pins) prog) :
    TreeMeets budget ((frame.fillTwo left middle right).pages config parent next)
      ({donor} + pins) (prog >>= fun separator => writePage frame.pid
        (.internal (InternalPage.setKeyAt ⟨parent, config.internalMaxSize, slots frame.before ++
          (frame.key, left.pid) :: (middle, right.pid) :: slots frame.after⟩
          (frame.before.length + 1) separator)) >>= fun _ =>
        unpinPage donor true >>= fun _ => pure true) fun taken heap pins' =>
        pins' = pins ∧ Borrowed config (frame.fillTwo left middle right) parent next poor taken
          heap := by
  have small := fits.small
  rw [pages_fillTwo, add_left_comm]
  refine meets_bind (Meets.frame moves _) ?_
  rintro separator heap pins' ⟨own, rfl, rfl, left', right', rebalanced, rfl⟩
  rw [setKeyAt_next]
  refine meets_writePage _ _ (add_left_comm _ _ _) (mem_add.mpr (.inr parentPinned))
    (fits_internal _ ?_) (meets_unpinPage pins rfl (meets_pure ⟨rfl, ?_⟩))
  · simp only [slots, length_append, length_cons, length_map]
    omega
  · rw [← rebalanced.first, ← rebalanced.leftPid, ← rebalanced.rightPid, ← pages_fillTwo]
    exact .taken (rebalanced.restores fits) (by rw [size_fillTwo, size_fillTwo])

lemma meets_borrowFromLeft_pair (frame : Frame height) (fits : frame.Fits config)
    (leftFits : left.Fits config) (rightSized : right.Sized config)
    (short : right.size + 1 = config.minAt height)
    (parentPinned : frame.pid ∈ pins) (rightPinned : right.pid ∈ pins) (room : budget.Room pins 2) :
    TreeMeets budget ((frame.fillTwo left middle right).pages config parent next) pins
      (borrowFromLeft frame.pid right.pid (frame.before.length + 1)) fun taken heap pins' =>
        pins' = pins ∧ Borrowed config (frame.fillTwo left middle right) parent next
          (left.size = config.minAt height) taken heap := by
  have owned := frame.mem_fillTwo config left right middle parent next
  rw [borrowFromLeft, if_neg (Nat.succ_ne_zero _)]
  refine meets_readInternal _ owned.1 parentPinned ?_
  refine meets_require valueAt_slot ?_
  refine meets_fetchPage _ owned.2.1 (room.mono (by decide)) (meets_readPage _ owned.2.1
    (by simp) ?_)
  rw [minSize_page, size_page]
  split
  next spare =>
    refine meets_readPage _ owned.2.2 (mem_add.mpr (.inr rightPinned)) ?_
    refine meets_require keyAt_next ?_
    exact meets_rebalance fits parentPinned (rebalances_moveLast leftFits spare rightSized short
      ⟨by simp, mem_add.mpr (.inr rightPinned), room.pin⟩)
  next poor =>
    refine meets_unpinPage pins rfl (meets_pure ⟨rfl, ?_⟩)
    exact .refused (le_antisymm (not_lt.mp poor) leftFits.1)

lemma meets_borrowFromRight_pair (frame : Frame height) (fits : frame.Fits config)
    (rightFits : right.Fits config) (leftSized : left.Sized config)
    (short : left.size + 1 = config.minAt height)
    (parentPinned : frame.pid ∈ pins) (leftPinned : left.pid ∈ pins) (room : budget.Room pins 2) :
    TreeMeets budget ((frame.fillTwo left middle right).pages config parent next) pins
      (borrowFromRight frame.pid left.pid frame.before.length) fun taken heap pins' =>
        pins' = pins ∧ Borrowed config (frame.fillTwo left middle right) parent next
          (right.size = config.minAt height) taken heap := by
  have owned := frame.mem_fillTwo config left right middle parent next
  refine meets_readInternal _ owned.1 parentPinned ?_
  rw [if_pos (by simp [slots])]
  refine meets_require valueAt_next ?_
  refine meets_fetchPage _ owned.2.2 (room.mono (by decide)) (meets_readPage _ owned.2.2
    (by simp) ?_)
  rw [minSize_page, size_page]
  split
  next spare =>
    refine meets_readPage _ owned.2.1 (mem_add.mpr (.inr leftPinned)) ?_
    refine meets_require keyAt_next ?_
    exact meets_rebalance fits parentPinned (rebalances_moveFirst rightFits spare leftSized short
      ⟨mem_add.mpr (.inr leftPinned), by simp, room.pin⟩)
  next poor =>
    refine meets_unpinPage pins rfl (meets_pure ⟨rfl, ?_⟩)
    exact .refused (le_antisymm (not_lt.mp poor) rightFits.1)

lemma meets_mergeIntoLeft (frame : Frame height) (fits : frame.Fits config)
    (leftSized : left.Sized config) (rightSized : right.Sized config)
    (total : left.size + right.size + 1 = 2 * config.minAt height)
    (leftSome : 0 < left.size) (rightSome : 0 < right.size)
    (parentPinned : frame.pid ∈ pins) (ready : Ready budget pins left.pid right.pid) :
    TreeMeets budget ((frame.fillTwo left middle right).pages config parent next) pins
      (mergeIntoLeft frame.pid left.pid right.pid (frame.before.length + 1))
      fun _ heap pins' => pins' = pins ∧ ∃ (merged : Tree (height + 1)) (gone : Page),
        Restores config (frame.fillTwo left middle right) merged ∧
        merged.size + 1 = (frame.fillTwo left middle right).size ∧
        heap = {(right.pid, gone)} + merged.pages config parent next := by
  have owned := frame.mem_fillTwo config left right middle parent next
  have small := fits.small
  refine meets_readInternal _ owned.1 parentPinned ?_
  refine meets_readPage _ owned.2.1 ready.left (meets_readPage _ owned.2.2 ready.right ?_)
  refine meets_require keyAt_next ?_
  rw [pages_fillTwo, add_left_comm]
  refine meets_bind (Meets.frame (joins_moveAll leftSized rightSized total leftSome rightSome
    ready) _) ?_
  rintro _ heap pins' ⟨own, rfl, rfl, joined, gone, isJoined, rfl⟩
  rw [remove_next]
  refine Meets.write (add_left_comm _ _ _) parentPinned (fits_internal _ ?_) (Meets.done
    ⟨rfl, frame.fill joined, gone, isJoined.restores fits, ?_, ?_⟩)
  · simp only [slots, length_append, length_cons, length_map]
    omega
  · rw [size_fill, size_fillTwo]
  · rw [pages_eq (frame.fill joined), page_fill, below_fill, pid_fill,
      isJoined.pid, isJoined.first]
    ac_rfl

lemma Borrowed.imp {poor' : Prop} {taken : Bool}
    (borrowed : Borrowed config tree parent next poor taken heap) (weaker : poor → poor') :
    Borrowed config tree parent next poor' taken heap := by
  cases borrowed with
  | refused isPoor => exact .refused (weaker isPoor)
  | taken restores size => exact .taken restores size

lemma Frame.fill_eq_fillTwo_left (pid : PageId) (before after : List (KeyType × Tree height))
    (leftKey key : KeyType) (left right : Tree height) :
    (Frame.mk pid (before ++ [(leftKey, left)]) key after).fill right =
      (Frame.mk pid before leftKey after).fillTwo left key right := by
  simp [Frame.fill, fillTwo]

lemma Frame.fill_eq_fillTwo_right (pid : PageId)
    (before after : List (KeyType × Tree height)) (key rightKey : KeyType)
    (left right : Tree height) : (Frame.mk pid before key ((rightKey, right) :: after)).fill left =
      (Frame.mk pid before key after).fillTwo left rightKey right := rfl

lemma Frame.Fits.split_left
    (fits : (Frame.mk pid (before ++ [(leftKey, left)]) key after).Fits config) :
    left.Fits config ∧ (Frame.mk pid before leftKey after).Fits config := by
  obtain ⟨beforeFits, afterFits, small⟩ := fits
  obtain ⟨othersFit, leftFits⟩ := rowFits_append.mp beforeFits
  have fewer : before.length + 1 + after.length ≤ config.internalMaxSize := by
    simp only [length_append] at small
    omega
  exact ⟨(rowFits_cons.mp leftFits).1, othersFit, afterFits, fewer⟩

lemma Frame.Fits.split_right
    (fits : (Frame.mk pid before key ((rightKey, right) :: after)).Fits config) :
    right.Fits config ∧ (Frame.mk pid before key after).Fits config := by
  obtain ⟨beforeFits, afterFits, small⟩ := fits
  obtain ⟨rightFits, othersFit⟩ := rowFits_cons.mp afterFits
  have fewer : before.length + 1 + after.length ≤ config.internalMaxSize := by
    simp only [length_cons] at small
    omega
  exact ⟨rightFits, beforeFits, othersFit, fewer⟩

variable {tree : Tree height} (fits : frame.Fits config) (sized : tree.Sized config)
  (short : tree.size + 1 = config.minAt height) (parentPinned : frame.pid ∈ pins)
  (pinned : tree.pid ∈ pins) (room : budget.Room pins 2)
include fits sized short parentPinned pinned room

lemma meets_borrowFromLeft : TreeMeets budget ((frame.fill tree).pages config parent next) pins
      (borrowFromLeft frame.pid tree.pid frame.before.length) fun taken heap pins' =>
        pins' = pins ∧ Borrowed config (frame.fill tree) parent next
          (∀ donor ∈ frame.before.getLast?, donor.2.size = config.minAt height) taken heap := by
  obtain ⟨pid, before, key, after⟩ := frame
  rcases List.eq_nil_or_concat' before with rfl | ⟨before, ⟨leftKey, left⟩, rfl⟩
  · exact meets_pure ⟨rfl, .refused (by simp)⟩
  · obtain ⟨leftFits, othersFit⟩ := fits.split_left
    have positions : (before ++ [(leftKey, left)]).length = before.length + 1 := by simp
    simp only [positions]
    rw [fill_eq_fillTwo_left]
    refine (meets_borrowFromLeft_pair ⟨pid, before, leftKey, after⟩ othersFit leftFits sized short
      parentPinned pinned room).mono ?_
    rintro taken heap pins' ⟨rfl, borrowed⟩
    exact ⟨rfl, borrowed.imp fun poor => by simpa using poor⟩

lemma meets_borrowFromRight : TreeMeets budget ((frame.fill tree).pages config parent next) pins
      (borrowFromRight frame.pid tree.pid frame.before.length) fun taken heap pins' =>
        pins' = pins ∧ Borrowed config (frame.fill tree) parent next
          (∀ donor ∈ frame.after.head?, donor.2.size = config.minAt height) taken heap := by
  obtain ⟨pid, before, key, after⟩ := frame
  rcases after with _ | ⟨⟨rightKey, right⟩, after⟩
  · refine meets_readInternal _ (mem_fill config _ tree parent next) parentPinned ?_
    rw [if_neg (by simp [slots])]
    exact meets_pure ⟨rfl, .refused (by simp)⟩
  · obtain ⟨rightFits, othersFit⟩ := fits.split_right
    rw [fill_eq_fillTwo_right]
    refine (meets_borrowFromRight_pair ⟨pid, before, key, after⟩ othersFit rightFits sized short
      parentPinned pinned room).mono ?_
    rintro taken heap pins' ⟨rfl, borrowed⟩
    exact ⟨rfl, borrowed.imp fun poor => by simpa using poor⟩

end

/-! ## Merging -/

section

variable {config : TreeConfig} {height : Nat} {frame : Frame height}
  {left right : Tree height} {middle : KeyType} {parent next : Option PageId} {budget : Budget}

lemma Frame.distinct_fillTwo
    (own : (((frame.fillTwo left middle right).pages config parent next).map Prod.fst).Nodup) :
    frame.pid ≠ left.pid ∧ frame.pid ≠ right.pid ∧ left.pid ≠ right.pid := by
  rw [pages_fillTwo] at own
  have leftMem : left.pid ∈ (left.pages config (some frame.pid) right.firstLeaf).map Prod.fst :=
    pid_mem_pages left _ _
  have rightMem : right.pid ∈ (right.pages config (some frame.pid)
      (firstOf frame.after next)).map Prod.fst := pid_mem_pages right _ _
  refine ⟨ne_of_nodup_add own (by simp) ?_, ne_of_nodup_add own (by simp) ?_, ?_⟩
  · simp only [map_add, mem_add, leftMem, true_or]
  · simp only [map_add, mem_add, rightMem, true_or, or_true]
  · rw [map_add] at own
    have pair := (nodup_add.mp own).2.1
    rw [map_add] at pair
    exact ne_of_nodup_add (nodup_add.mp pair).1 leftMem rightMem

/-- A node that has lost a child to a merge. -/
def Merged (budget : Budget) (config : TreeConfig) (tree : Tree (height + 1))
    (parent next : Option PageId) (heap : PageHeap Page) (pins : Multiset PageId) : Prop :=
  pins = budget.others ∧ ∃ tree', Restores config tree tree' ∧ tree'.size + 1 = tree.size ∧
    heap = tree'.pages config parent next

lemma meets_mergeSiblings (frame : Frame height) (fits : frame.Fits config)
    (leftSized : left.Sized config) (rightSized : right.Sized config)
    (total : left.size + right.size + 1 = 2 * config.minAt height) (leftSome : 0 < left.size)
    (rightSome : 0 < right.size) (dirty : Bool)
    (pinned : pins = {right.pid} + ({left.pid} + ({frame.pid} + budget.others)))
    (room : budget.Room pins 1) :
    TreeMeets budget ((frame.fillTwo left middle right).pages config parent next) pins
      (mergeSiblings frame.pid left.pid right.pid (frame.before.length + 1) dirty)
      fun _ => Merged budget config (frame.fillTwo left middle right) parent next := by
  refine Meets.of_nodup fun nodup => ?_
  obtain ⟨_, parentNe, leftNe⟩ := distinct_fillTwo nodup
  subst pinned
  refine meets_bind (meets_mergeIntoLeft frame fits leftSized rightSized total leftSome rightSome
    (by simp) ⟨by simp, by simp, room⟩) ?_
  rintro _ heap pins' ⟨rfl, merged, gone, restores, size, rfl⟩
  refine meets_unpinPage _ rfl ?_
  refine meets_deletePage gone _ rfl (by simp [leftNe.symm, parentNe.symm]) ?_
  refine meets_unpinPage ({frame.pid} + budget.others) rfl ?_
  exact Meets.unpin rfl (Meets.done ⟨rfl, merged, restores, size, rfl⟩)

/-- A node two entries short of a full pair merges with a sibling that has none to spare. -/
lemma meets_mergeWithSibling (fits : frame.Fits config) (sized : tree.Sized config)
    (short : tree.size + 1 = config.minAt height)
    (sibling : 2 ≤ frame.before.length + 1 + frame.after.length)
    (leftPoor : ∀ donor ∈ frame.before.getLast?, donor.2.size = config.minAt height)
    (rightPoor : ∀ donor ∈ frame.after.head?, donor.2.size = config.minAt height) (dirty : Bool)
    (room : budget.Room budget.others 4) :
    TreeMeets budget ((frame.fill tree).pages config parent next)
      ({frame.pid} + ({tree.pid} + budget.others))
      (mergeWithSibling frame.pid tree.pid ⟨parent, config.internalMaxSize,
        slots frame.before ++ (frame.key, tree.pid) :: slots frame.after⟩
        frame.before.length dirty) fun _ => Merged budget config (frame.fill tree) parent next := by
  have two := config.two_le_minAt height
  obtain ⟨pid, before, key, after⟩ := frame
  rcases List.eq_nil_or_concat' before with rfl | ⟨before, ⟨leftKey, left⟩, rfl⟩
  · -- There is no left sibling, so there is a right one.
    rcases after with _ | ⟨⟨rightKey, right⟩, after⟩
    · simp at sibling
    obtain ⟨rightFits, othersFit⟩ := fits.split_right
    have rightSize : right.size = config.minAt height := rightPoor _ rfl
    rw [fill_eq_fillTwo_right]
    refine meets_require rfl ?_
    refine meets_fetchPage _ (mem_fillTwo config ⟨pid, [], key, after⟩ tree right
      rightKey parent next).2.2 (room.pin.pin.mono (by decide)) ?_
    exact meets_mergeSiblings ⟨pid, [], key, after⟩ othersFit sized rightFits.2.2 (by omega)
      (by omega) (by omega) false (congrArg _ (add_left_comm _ _ _)) room.pin.pin.pin
  · obtain ⟨leftFits, othersFit⟩ := fits.split_left
    have leftSize : left.size = config.minAt height := leftPoor (leftKey, left) (by simp)
    have positions : (before ++ [(leftKey, left)]).length = before.length + 1 := by simp
    have found : InternalPage.valueAt ⟨parent, config.internalMaxSize,
        slots (before ++ [(leftKey, left)]) ++ (key, tree.pid) :: slots after⟩
        (before.length + 1 - 1) = some left.pid := by
      simp [InternalPage.valueAt, slots]
    simp only [positions]
    rw [fill_eq_fillTwo_left, mergeWithSibling, if_pos (Nat.succ_pos _)]
    refine meets_require found ?_
    refine meets_fetchPage _ (mem_fillTwo config ⟨pid, before, leftKey, after⟩ left tree
      key parent next).2.1 (room.pin.pin.mono (by decide)) ?_
    exact meets_mergeSiblings ⟨pid, before, leftKey, after⟩ othersFit leftFits.2.2 sized (by omega)
      (by omega) (by omega) dirty (by ac_rfl) room.pin.pin.pin

end

/-! ## Up the tree -/

/-- What the pages at a root hold: no tree, or a valid one with some number of levels. -/
inductive Stored (config : TreeConfig) :
    Option PageId → PageHeap Page → List (KeyType × Bytes) → Nat → Prop where
  | empty : Stored config none 0 [] 0
  | tree {whole : AnyTree} (valid : whole.Valid config) :
      Stored config (some whole.tree.pid) (whole.tree.pages config none none)
        whole.tree.toList (whole.height + 1)

/-- A subtree and its context with the pins of others only: the entries are still there, in
a tree that is no higher. -/
def Repaired (budget : Budget) (config : TreeConfig) {height : Nat} (context : Context height)
    (tree : Tree height) (root : Option PageId) (heap : PageHeap Page)
    (pins : Multiset PageId) : Prop :=
  pins = budget.others ∧ ∃ levels, levels ≤ height + context.depth + 1 ∧ Stored config root heap
    (context.leftEntries ++ tree.toList ++ context.rightEntries) levels

section

variable {config : TreeConfig} {height : Nat}
variable {frame : Frame height} {outer : Context (height + 1)} {tree tree' : Tree height}
  {root : Option PageId} {heap : PageHeap Page} {pins : Multiset PageId}
  {context : Context height} {depth : Nat} {budget : Budget}

lemma Repaired.inside (repaired : Repaired budget config outer (frame.fill tree) root heap pins) :
    Repaired budget config (.inside frame outer) tree root heap pins := by
  obtain ⟨rfl, levels, bound, stored⟩ := repaired
  refine ⟨rfl, levels, ?_, ?_⟩
  · rw [Context.depth]
    omega
  · rw [toList_fill] at stored
    simpa [leftEntries, rightEntries] using stored

lemma Repaired.of_restores (repaired : Repaired budget config context tree' root heap pins)
    (restores : Restores config tree tree') :
    Repaired budget config context tree root heap pins := by
  rw [Repaired, ← restores.entries]
  exact repaired

/-- A valid tree needs no repair. -/
lemma repaired_of_valid (budget : Budget) (valid : (context.plug tree).Valid config) :
    Repaired budget config context tree (some (context.rootId tree.pid))
      (context.pages config tree.pid tree.firstLeaf +
        tree.pages config context.parent context.next) budget.others := by
  refine ⟨rfl, _, le_rfl, ?_⟩
  rw [← pid_plug, ← pages_plug, ← toList_plug, ← height_plug]
  exact .tree valid

/-- A tree fit to be a child is fit to be the root. -/
lemma valid_of_fits (inOrder : InOrder tree.marks) (fits : tree.Fits config) :
    AnyTree.Valid config ⟨height, tree⟩ where
  inOrder := inOrder
  size := by
    refine ⟨le_trans ?_ (le_trans (config.two_le_minAt height) fits.1), fits.2.1⟩
    rw [Context.least]
    split <;> decide
  sized := fits.2.2

/-- The only child of the root becomes the root. -/
lemma meets_collapseRoot {child : Tree height} {pid : PageId} {key : KeyType}
    (inOrder : InOrder (node pid [(key, child)]).marks)
    (sized : (node pid [(key, child)]).Sized config) (dirty : Bool)
    (room : budget.Room budget.others 1) :
    TreeMeets budget ((node pid [(key, child)]).pages config none none) ({pid} + budget.others) (do
      let onlyChild ← require (InternalPage.valueAt ⟨none, config.internalMaxSize,
        [(key, child.pid)]⟩ 0) .badIndex
      writePage pid (.internal ⟨none, config.internalMaxSize, []⟩)
      unpinPage pid dirty
      deletePage pid
      fetchPage onlyChild
      setParent onlyChild none
      unpinPage onlyChild true
      return some onlyChild) (Repaired budget config .root (node pid [(key, child)])) := by
  have fits := (rowFits_cons.mp ((sized_node pid _).mp sized)).1
  have marks : (node pid [(key, child)]).marks = child.marks := append_nil _
  have entries : (node pid [(key, child)]).toList = child.toList := append_nil _
  rw [pages_node, rowPages_cons, rowPages_nil, add_zero, firstOf_nil, pages_eq]
  refine meets_require rfl ?_
  refine meets_writePage _ _ rfl (by simp) (fits_internal none (Nat.zero_le _)) ?_
  refine meets_unpinPage budget.others rfl (meets_deletePage _ _ rfl id ?_)
  refine meets_fetchPage _ (mem_singleton_add _ _) room ?_
  refine meets_setParent _ _ rfl (by simp) ?_ ?_
  · rw [setParentPageId_page]
    exact fits.fits_page _ _
  refine meets_unpinPage _ rfl (meets_pure ⟨rfl, height + 1, by omega, ?_⟩)
  rw [setParentPageId_page, ← pages_eq, entries]
  simp only [leftEntries, rightEntries, nil_append, append_nil]
  exact .tree (valid_of_fits (marks ▸ inOrder) fits)

lemma meets_handleRootUnderflow (inOrder : InOrder tree.marks) (sized : tree.Sized config)
    (large : (Context.root : Context height).least config ≤ tree.size + 1)
    (small : tree.size ≤ config.maxAt height) (dirty : Bool) (room : budget.Room budget.others 1) :
    TreeMeets budget (tree.pages config none none) ({tree.pid} + budget.others)
      (handleRootUnderflow (some tree.pid) tree.pid dirty (tree.page config none none))
      (Repaired budget config .root tree) := by
  have keep : (Context.root : Context height).least config ≤ tree.size →
      Repaired budget config .root tree (some tree.pid) (tree.pages config none none)
        budget.others := by
    intro enough
    have valid : (Context.root.plug tree).Valid config := ⟨inOrder, ⟨enough, small⟩, sized⟩
    have repaired := repaired_of_valid budget valid
    rw [show Context.pages config .root tree.pid tree.firstLeaf = 0 from rfl, zero_add] at repaired
    exact repaired
  cases height with
  | zero =>
    obtain ⟨pid, entries, rfl⟩ := tree.exists_leaf
    change TreeMeets budget _ _ (if entries.length = 0 then _ else _) _
    split
    next empty =>
      rw [length_eq_zero_iff] at empty
      subst empty
      refine meets_unpinPage _ rfl ?_
      exact meets_deletePage _ 0 rfl id (meets_pure ⟨rfl, 0, Nat.zero_le _, .empty⟩)
    next some =>
      exact meets_unpinPage _ rfl (meets_pure (keep (Nat.one_le_iff_ne_zero.mpr some)))
  | succ height =>
    obtain ⟨pid, children, rfl⟩ := tree.exists_node
    change TreeMeets budget _ _ (if (slots children).length = 1 then _ else _) _
    split
    next single =>
      rw [slots, length_map, List.length_eq_one_iff] at single
      obtain ⟨⟨key, child⟩, rfl⟩ := single
      exact meets_collapseRoot inOrder sized dirty room
    next several =>
      refine meets_unpinPage _ rfl (meets_pure (keep ?_))
      rw [slots, length_map] at several
      have least : (Context.root : Context (height + 1)).least config = 2 := rfl
      rw [size_node] at large ⊢
      omega

/-- A node that is restored is at its place in a valid tree. -/
lemma Restores.repaired (restores : Restores config tree tree')
    (inOrder : InOrder (context.leftMarks ++ tree.marks ++ context.rightMarks))
    (sized : context.Sized config) (allows : context.Allows config tree'.size) :
    Repaired budget config context tree (some (context.rootId tree.pid))
      (tree'.pages config context.parent context.next +
        context.pages config tree.pid tree.firstLeaf) budget.others := by
  have valid : (context.plug tree').Valid config :=
    valid_plug.mpr ⟨restores.marks _ _ inOrder, sized, allows, restores.sized⟩
  have repaired := (repaired_of_valid budget valid).of_restores restores
  rw [restores.pid, restores.first, add_comm] at repaired
  exact repaired

/-- One level of `HandleUnderflow`, given that the next one repairs the parent. -/
lemma meets_handleUnderflow_inside
    (inOrder : InOrder (outer.leftMarks ++ (frame.fill tree).marks ++ outer.rightMarks))
    (beforeFits : RowFits config frame.before) (afterFits : RowFits config frame.after)
    (allows : outer.Allows config (frame.before.length + 1 + frame.after.length))
    (sized : outer.Sized config) (treeSized : tree.Sized config)
    (large : config.minAt height ≤ tree.size + 1) (small : tree.size ≤ config.maxAt height)
    (fresh : ∀ slot ∈ slots frame.before, slot.2 ≠ tree.pid) (dirty : Bool)
    (room : budget.Room budget.others 4)
    (again : ∀ merged, Restores config (frame.fill tree) merged →
      merged.size + 1 = (frame.fill tree).size →
      TreeMeets budget (merged.pages config outer.parent outer.next +
          outer.pages config frame.pid (frame.fill tree).firstLeaf) ({frame.pid} + budget.others)
        (handleUnderflow config depth (some (outer.rootId frame.pid)) frame.pid false)
        (Repaired budget config outer (frame.fill tree))) :
    TreeMeets budget ((frame.fill tree).pages config outer.parent outer.next +
        outer.pages config frame.pid (frame.fill tree).firstLeaf) ({tree.pid} + budget.others)
      (handleUnderflow config (depth + 1) (some (outer.rootId frame.pid)) tree.pid dirty)
      (Repaired budget config outer (frame.fill tree)) := by
  have others : frame.Fits config := ⟨beforeFits, afterFits, allows.2⟩
  have size := frame.size_fill tree
  have child := frame.mem_child config tree outer.parent outer.next
  have node := frame.mem_fill config tree outer.parent outer.next
  refine meets_readPage _ (mem_add.mpr (.inl child)) (by simp) ?_
  rw [parentPageId_page, minSize_page, size_page]
  change TreeMeets budget _ _ (if _ then _ else _) _
  split
  next enough =>
    have fits : tree.Fits config := ⟨enough, small, treeSized⟩
    have valid : (outer.plug (frame.fill tree)).Valid config := valid_plug.mpr
      ⟨inOrder, sized, by rw [size]; exact allows,
        (frame.sized_fill tree).mpr ⟨beforeFits, fits, afterFits⟩⟩
    rw [add_comm]
    exact meets_unpinPage _ rfl (meets_pure (repaired_of_valid budget valid))
  next short =>
    have short' : tree.size + 1 = config.minAt height := by omega
    refine meets_fetchPage _ (mem_add.mpr (.inl node)) (room.pin.mono (by decide)) ?_
    refine meets_readInternal _ (mem_add.mpr (.inl node)) (by simp) ?_
    refine meets_require (valueIndex_slot fresh) ?_
    refine meets_bind (Meets.frame (meets_borrowFromLeft others treeSized short' (by simp)
      (by simp) room.pin.pin) _) ?_
    rintro taken heap pins' ⟨own, rfl, rfl, borrowed⟩
    cases borrowed with
    | taken restores sameSize =>
      refine meets_unpinPage _ rfl (meets_unpinPage _ rfl (meets_pure ?_))
      exact restores.repaired inOrder sized (by rw [sameSize, size]; exact allows)
    | refused leftPoor =>
      refine meets_bind (Meets.frame (meets_borrowFromRight others treeSized short' (by simp)
        (by simp) room.pin.pin) _) ?_
      rintro taken heap pins' ⟨own, rfl, rfl, borrowed⟩
      cases borrowed with
      | taken restores sameSize =>
        refine meets_unpinPage _ rfl (meets_unpinPage _ rfl (meets_pure ?_))
        exact restores.repaired inOrder sized (by rw [sameSize, size]; exact allows)
      | refused rightPoor =>
        refine meets_bind (Meets.frame (meets_mergeWithSibling others treeSized short'
          (le_trans (outer.two_le_least config) allows.1) leftPoor rightPoor dirty room) _) ?_
        rintro _ heap pins' ⟨own, rfl, rfl, merged, restores, smaller, rfl⟩
        have same : merged.pid = frame.pid := restores.pid
        refine meets_fetchPage (merged.page config outer.parent outer.next) ?_
          (room.mono (by decide)) ?_
        · rw [← same]
          exact mem_add.mpr (.inl (merged.mem_pages _ _))
        · exact again merged restores smaller

lemma meets_handleUnderflow (context : Context height) (tree : Tree height)
    (deep : context.depth < depth)
    (inOrder : InOrder (context.leftMarks ++ tree.marks ++ context.rightMarks))
    (sized : context.Sized config) (treeSized : tree.Sized config)
    (large : context.least config ≤ tree.size + 1) (small : tree.size ≤ config.maxAt height)
    (dirty : Bool) (room : budget.Room budget.others 4) :
    TreeMeets budget (tree.pages config context.parent context.next +
        context.pages config tree.pid tree.firstLeaf) ({tree.pid} + budget.others)
      (handleUnderflow config depth (some (context.rootId tree.pid)) tree.pid dirty)
      (Repaired budget config context tree) := by
  induction context generalizing depth dirty with
  | root =>
    cases depth with
    | zero => cases deep
    | succ depth =>
      have ordered : InOrder tree.marks := by
        simpa [leftMarks, rightMarks] using inOrder
      rw [show Context.pages config .root tree.pid tree.firstLeaf = 0 from rfl, add_zero]
      refine meets_readPage _ (tree.mem_pages none none) (by simp) ?_
      rw [parentPageId_page]
      exact meets_handleRootUnderflow ordered treeSized large small dirty (room.mono (by decide))
  | inside frame outer ih =>
    cases depth with
    | zero => cases deep
    | succ depth =>
      obtain ⟨beforeFits, afterFits, allows, outerSized⟩ := sized
      rw [marks_inside] at inOrder
      rw [add_comm]
      refine Meets.of_nodup fun nodup => ?_
      have fresh := fresh_slots nodup (pid_mem_pages tree _ _)
      rw [pages_inside, add_comm]
      refine (meets_handleUnderflow_inside inOrder beforeFits afterFits allows outerSized
        treeSized large small fresh dirty room ?_).mono fun _ _ _ repaired => repaired.inside
      intro merged restores smaller
      have size : merged.size = frame.before.length + frame.after.length := by
        rw [size_fill] at smaller
        omega
      have repairs := ih merged (Nat.lt_of_succ_lt_succ deep) (restores.marks _ _ inOrder)
        outerSized restores.sized (by rw [size]; exact le_trans allows.1 (by omega))
        (by rw [size]; exact le_trans (by omega) allows.2) false
      rw [restores.pid, restores.first] at repairs
      exact repairs.mono fun _ _ _ repaired => repaired.of_restores restores

/-- `Remove` takes the key out of the tree. -/
lemma meets_remove {whole : AnyTree} (valid : whole.Valid config)
    (enough : whole.height < depth) (room : budget.Room budget.others 4) (key : KeyType) :
    TreeMeets budget (whole.tree.pages config none none) budget.others
      (remove config depth (some whole.tree.pid) key) fun result heap pins' =>
        pins' = budget.others ∧ result.1 = (lookupEntry key whole.tree.toList).isSome ∧
        ∃ levels, levels ≤ whole.height + 1 ∧
          Stored config result.2 heap (eraseEntry key whole.tree.toList) levels := by
  refine meets_fetchPage _ (whole.tree.mem_pages none none) (room.mono (by decide)) ?_
  refine meets_bind (meets_findLeaf valid enough (room.mono (by decide)) key) ?_
  rintro leafId heap pins' ⟨context, entries, rfl, reaches, rfl, rfl⟩
  obtain ⟨inOrder, sized, allows, _⟩ := valid_plug.mp valid
  have ascending : Ascending entries :=
    inOrder_keyMarks.mp (inOrder_append.mp (inOrder_append.mp inOrder).1).2.1
  have looked : _ = lookupEntry key entries := reaches.lookup (leaf leafId entries)
  have erased : eraseEntry key (context.plug (leaf leafId entries)).tree.toList =
      context.leftEntries ++ eraseEntry key entries ++ context.rightEntries := by
    rw [toList_plug]
    exact eraseEntry_middle reaches.below reaches.above
  refine meets_readLeaf _ (mem_singleton_add _ _) (by simp) ?_
  rw [LeafPage.remove_eq ascending key, looked]
  cases found : lookupEntry key entries with
  | none =>
    have pages : {(leafId, Page.leaf ⟨context.parent, config.leafMaxSize, context.next,
        entries⟩)} + context.pages config leafId (some leafId) =
        (context.plug (leaf leafId entries)).tree.pages config none none := by
      rw [pages_plug, add_comm]
      rfl
    rw [pages, eraseEntry_of_lookup_none (looked.trans found)]
    exact meets_unpinPage _ rfl (meets_pure ⟨rfl, rfl, _, le_rfl, .tree valid⟩)
  | some value =>
    have length := ascending.length_eraseEntry found
    have fewer : (eraseEntry key entries).length ≤ config.leafMaxSize := by
      have before : entries.length ≤ config.leafMaxSize := allows.2
      omega
    have ordered : InOrder (context.leftMarks ++ keyMarks (eraseEntry key entries) ++
        context.rightMarks) := by
      refine inOrder.sublist (List.Sublist.append (List.Sublist.append (List.Sublist.refl _)
        ?_) (List.Sublist.refl _))
      exact filter_sublist.map _
    have shallow : context.depth < depth := by
      rw [height_plug, Nat.zero_add] at enough
      exact enough
    rw [erased, pid_plug, height_plug]
    refine meets_writePage _ _ rfl (by simp) (fits_leaf _ _ (Nat.le_succ_of_le fewer)) ?_
    refine meets_bind (meets_handleUnderflow context (leaf leafId (eraseEntry key entries))
      shallow ordered sized trivial (le_of_le_of_eq allows.1 length.symm) fewer true room) ?_
    rintro root heap pins' ⟨rfl, levels, bound, stored⟩
    exact meets_pure ⟨rfl, rfl, levels, bound, stored⟩

end

end DbEngine.Index
