import DbEngine.Index.Rules
import DbEngine.Index.Leaf

/-!
# Lookups

The descent from the root reaches the leaf where a key belongs: everything to its left is
below the key and everything to its right above it.  What `GetValue` finds in the leaf is
then what the whole tree holds.
-/

namespace DbEngine.Index

open Lib BPlusTree Tree

/-! ## Entries and marks -/

/-- The marks of the keys of some entries. -/
def keyMarks (entries : List (KeyType × Bytes)) : List (Mark KeyType) :=
  entries.map fun entry => keyMark entry.1

lemma inOrder_keyMarks : InOrder (keyMarks entries) ↔ Ascending entries := by
  simp only [InOrder, keyMarks, pairwise_map, keyMark_lt_keyMark, Ascending]

namespace Tree

variable {height : Nat}

lemma rowMarks_append (before after : List (KeyType × Tree height)) :
    rowMarks (before ++ after) = rowMarks before ++ rowMarks after := by
  simp [rowMarks]

lemma tail_rowMarks_cons (key : KeyType) (child : Tree height)
    (children : List (KeyType × Tree height)) :
    (rowMarks ((key, child) :: children)).tail = child.marks ++ rowMarks children := rfl

lemma keyMarks_rowEntries_of {children : List (KeyType × Tree height)}
    (each : ∀ child ∈ children, (keyMarks child.2.toList).Sublist child.2.marks) :
    (keyMarks (rowEntries children)).Sublist (rowMarks children).tail := by
  induction children with
  | nil => exact List.Sublist.refl _
  | cons head rest ih =>
    obtain ⟨key, child⟩ := head
    have later := ih fun other mem => each other (mem_cons_of_mem _ mem)
    have split : keyMarks (rowEntries ((key, child) :: rest)) =
        keyMarks child.toList ++ keyMarks (rowEntries rest) := by
      simp [keyMarks, rowEntries]
    rw [split, tail_rowMarks_cons]
    exact List.Sublist.append (each (key, child) mem_cons_self) (later.trans (List.tail_sublist _))

/-- The keys of a tree are among its marks, in the same order. -/
lemma keyMarks_toList (tree : Tree height) : (keyMarks tree.toList).Sublist tree.marks := by
  induction height, tree using Tree.inductOn with
  | leaf => exact List.Sublist.refl _
  | node pid children ih => exact keyMarks_rowEntries_of ih

lemma keyMarks_rowEntries (children : List (KeyType × Tree height)) :
    (keyMarks (rowEntries children)).Sublist (rowMarks children).tail :=
  keyMarks_rowEntries_of fun child _ => keyMarks_toList child.2

lemma ascending_toList {tree : Tree height} (inOrder : InOrder tree.marks) :
    Ascending tree.toList :=
  inOrder_keyMarks.mp (inOrder.sublist tree.keyMarks_toList)

end Tree

namespace Context

lemma keyMarks_leftEntries (context : Context height) :
    (keyMarks context.leftEntries).Sublist context.leftMarks := by
  induction context with
  | root => exact List.Sublist.refl _
  | inside frame outer ih =>
    have split : keyMarks (inside frame outer).leftEntries =
        keyMarks outer.leftEntries ++ keyMarks (rowEntries frame.before) := by
      simp [keyMarks, leftEntries]
    rw [split, leftMarks]
    refine List.Sublist.append ih ((keyMarks_rowEntries frame.before).trans ?_)
    exact (List.sublist_append_left _ _).tail

lemma keyMarks_rightEntries (context : Context height) :
    (keyMarks context.rightEntries).Sublist context.rightMarks := by
  induction context with
  | root => exact List.Sublist.refl _
  | inside frame outer ih =>
    have split : keyMarks (inside frame outer).rightEntries =
        keyMarks (rowEntries frame.after) ++ keyMarks outer.rightEntries := by
      simp [keyMarks, rightEntries]
    rw [split, rightMarks]
    exact List.Sublist.append ((keyMarks_rowEntries frame.after).trans (List.tail_sublist _)) ih

/-- The subtree stands where a key belongs. -/
structure Reaches {height : Nat} (context : Context height) (key : KeyType) : Prop where
  left : ∀ mark ∈ context.leftMarks, mark < keyMark key
  right : ∀ mark ∈ context.rightMarks, keyMark key < mark

variable {height : Nat} {context : Context height} {key : KeyType}

lemma Reaches.below (reaches : context.Reaches key) :
    ∀ entry ∈ context.leftEntries, entry.1 < key := by
  intro entry mem
  have marked : keyMark entry.1 ∈ context.leftMarks :=
    context.keyMarks_leftEntries.subset (mem_map_of_mem mem)
  exact keyMark_lt_keyMark.mp (reaches.left _ marked)

lemma Reaches.above (reaches : context.Reaches key) :
    ∀ entry ∈ context.rightEntries, key < entry.1 := by
  intro entry mem
  have marked : keyMark entry.1 ∈ context.rightMarks :=
    context.keyMarks_rightEntries.subset (mem_map_of_mem mem)
  exact keyMark_lt_keyMark.mp (reaches.right _ marked)

lemma Reaches.lookup (reaches : context.Reaches key) (tree : Tree height) :
    lookupEntry key (context.plug tree).tree.toList = lookupEntry key tree.toList := by
  rw [toList_plug, lookupEntry_middle reaches.below reaches.above]

/-! ## Choosing a child -/

/-- Left of a separator that is not above the key, everything is below the key. -/
lemma lt_of_mem_left (reached : before ≠ [] → separator ≤ key)
    (inOrder : InOrder (rowMarks before ++ [sepMark separator]).tail)
    (mem : mark ∈ (rowMarks before ++ [sepMark separator]).tail) : mark < keyMark key := by
  cases before with
  | nil => cases mem
  | cons first rest =>
    have split : (rowMarks (first :: rest) ++ [sepMark separator]).tail =
        (rowMarks (first :: rest)).tail ++ [sepMark separator] :=
      List.tail_append_of_ne_nil (cons_ne_nil _ _)
    rw [split] at mem inOrder
    have small : sepMark separator < keyMark key :=
      sepMark_lt_keyMark.mpr (reached (cons_ne_nil _ _))
    rcases mem_append.mp mem with earlier | isSeparator
    · exact lt_trans ((inOrder_append.mp inOrder).2.2 mark earlier _ (mem_singleton_self _)) small
    · rw [mem_singleton.mp isSeparator]
      exact small

/-- Right of a separator above the key, everything is above the key. -/
lemma lt_of_mem_right {after : List (KeyType × Tree height)}
    (reached : ∀ entry ∈ after.head?, key < entry.1) (inOrder : InOrder (rowMarks after))
    (mem : mark ∈ rowMarks after) : keyMark key < mark := by
  cases after with
  | nil => cases mem
  | cons first rest =>
    have large : keyMark key < sepMark first.1 := keyMark_lt_sepMark.mpr (reached first rfl)
    have split : rowMarks (first :: rest) =
        sepMark first.1 :: (first.2.marks ++ rowMarks rest) := rfl
    rw [split] at mem inOrder
    rcases mem_cons.mp mem with rfl | later
    · exact large
    · exact lt_trans large ((pairwise_cons.mp inOrder).1 mark later)

/-- `Lookup` of an internal page chooses the child where the key belongs. -/
lemma exists_child_of_lookup {outer : Context (height + 1)} {pid : PageId}
    (nonempty : children ≠ [])
    (inOrder : InOrder (outer.leftMarks ++ (node pid children).marks ++ outer.rightMarks))
    (reaches : outer.Reaches key) (parent : Option PageId) (maxSize : Nat) :
    ∃ (frame : Frame height) (child : Tree height), node pid children = frame.fill child ∧
      InternalPage.lookup ⟨parent, maxSize, slots children⟩ key = some child.pid ∧
      (inside frame outer).Reaches key := by
  cases children with
  | nil => exact absurd rfl nonempty
  | cons first rest =>
    -- The children up to the last separator that is not above the key.
    let passed := rest.takeWhile fun entry => !decide (key < entry.1)
    let after := rest.dropWhile fun entry => !decide (key < entry.1)
    have whole : first :: rest = (first :: passed) ++ after := by
      rw [cons_append, List.takeWhile_append_dropWhile]
    have ne : first :: passed ≠ [] := cons_ne_nil _ _
    let chosen := (first :: passed).getLast ne
    let before := (first :: passed).dropLast
    have split : first :: passed = before ++ [chosen] := (List.dropLast_append_getLast ne).symm
    have chosenLe : before ≠ [] → chosen.1 ≤ key := by
      intro someBefore
      have mem : chosen ∈ passed := by
        cases listed : before with
        | nil => exact absurd listed someBefore
        | cons head others =>
          rw [listed, cons_append] at split
          rw [(List.cons.inj split).2]
          exact mem_append_right _ (mem_singleton_self _)
      simpa using List.mem_takeWhile_imp mem
    have aboveKey : ∀ entry ∈ after.head?, key < entry.1 := by
      intro entry isHead
      have stops := List.head?_dropWhile_not (fun entry => !decide (key < entry.1)) rest
      rw [mem_def.mp isHead] at stops
      simpa using stops
    let frame : Frame height := ⟨pid, before, chosen.1, after⟩
    have filled : node pid (first :: rest) = frame.fill chosen.2 := by
      rw [whole, split, append_assoc]
      rfl
    refine ⟨frame, chosen.2, filled, ?_, ?_⟩
    · have mapped : (slots rest).takeWhile (fun entry => !decide (key < entry.1)) =
          slots passed := List.takeWhile_map
      have last : ((first.1, first.2.pid) :: slots passed).getLast? =
          some (chosen.1, chosen.2.pid) := by
        have listed : (first.1, first.2.pid) :: slots passed = slots (first :: passed) := rfl
        rw [listed, split]
        simp [slots]
      simp only [InternalPage.lookup, slots, map_cons]
      rw [show rest.map (fun child => (child.1, child.2.pid)) = slots rest from rfl, mapped, last]
      rfl
    · rw [filled, Frame.marks_fill] at inOrder
      have here := (inOrder_append.mp (inOrder_append.mp inOrder).1).2.1
      constructor
      · intro mark mem
        rcases mem_append.mp mem with outerLeft | inner
        · exact reaches.left mark outerLeft
        · have leftOrdered := (inOrder_append.mp (inOrder_append.mp here).1).1
          exact lt_of_mem_left chosenLe leftOrdered inner
      · intro mark mem
        rcases mem_append.mp mem with inner | outerRight
        · have rightOrdered := (inOrder_append.mp here).2.1
          exact lt_of_mem_right aboveKey rightOrdered inner
        · exact reaches.right mark outerRight

/-! ## The descent -/

/-- Where a descent ends up: at the leftmost leaf, or where the key belongs. -/
def Located {height : Nat} (leftmost : Bool) (key : KeyType) (context : Context height) :
    Prop :=
  match leftmost with
  | true => context.leftLeaves = []
  | false => context.Reaches key

lemma located_root {height : Nat} (leftmost : Bool) (key : KeyType) :
    (root : Context height).Located leftmost key := by
  cases leftmost with
  | true => rfl
  | false =>
    constructor
    · intro mark mem
      cases mem
    · intro mark mem
      cases mem

/-- The child a descent continues with. -/
lemma exists_child {pid : PageId} (nonempty : children ≠ [])
    (inOrder : InOrder (outer.leftMarks ++ (node pid children).marks ++ outer.rightMarks))
    (located : outer.Located leftmost key) (parent : Option PageId) (maxSize : Nat) :
    ∃ (frame : Frame height) (child : Tree height), node pid children = frame.fill child ∧
      (if leftmost then InternalPage.valueAt ⟨parent, maxSize, slots children⟩ 0
        else InternalPage.lookup ⟨parent, maxSize, slots children⟩ key) = some child.pid ∧
      (inside frame outer).Located leftmost key := by
  cases leftmost with
  | false => exact exists_child_of_lookup nonempty inOrder located parent maxSize
  | true =>
    cases children with
    | nil => exact absurd rfl nonempty
    | cons first rest =>
      refine ⟨⟨pid, [], first.1, rest⟩, first.2, rfl, rfl, ?_⟩
      have leftLeaves : outer.leftLeaves = [] := located
      simp [Located, Context.leftLeaves, leftLeaves, rowLeaves]

end Context

section

variable {config : TreeConfig} {whole : AnyTree} {key : KeyType} {budget : Budget}
  {pins : Multiset PageId}

lemma plug_root (whole : AnyTree) : Context.root.plug whole.tree = whole := rfl

variable {height depth : Nat} {context : Context height} {tree : Tree height}

/-- The pages of a subtree are pages of the tree. -/
lemma mem_pages_of_plug (plugged : context.plug tree = whole) :
    (tree.pid, tree.page config context.parent context.next) ∈
      whole.tree.pages config none none := by
  rw [← plugged, Context.pages_plug]
  exact Multiset.mem_add.mpr (.inr (tree.mem_pages _ _))

lemma meets_findLeafPageGuard (valid : whole.Valid config) {leftmost : Bool}
    (plugged : context.plug tree = whole) (located : context.Located leftmost key)
    (enough : height < depth) (room : budget.Room pins 2) :
    TreeMeets budget (whole.tree.pages config none none) ({tree.pid} + pins)
      (findLeafPageGuard key leftmost depth tree.pid) fun result heap pins' =>
        heap = whole.tree.pages config none none ∧
        ∃ (context : Context 0) (leaf : Tree 0), context.plug leaf = whole ∧
          context.Located leftmost key ∧ result = leaf.pid ∧ pins' = {leaf.pid} + pins := by
  induction height generalizing depth with
  | zero =>
    cases depth with
    | zero => cases enough
    | succ depth =>
      refine meets_readPage _ (mem_pages_of_plug plugged) (by simp) ?_
      exact meets_pure ⟨rfl, context, tree, plugged, located, rfl, rfl⟩
  | succ height ih =>
    cases depth with
    | zero => cases enough
    | succ depth =>
      have facts := Context.valid_plug.mp (plugged ▸ valid)
      have nonempty : InnerNode.children tree ≠ [] := by
        intro empty
        have least := context.least_pos config
        have counted : (InnerNode.children tree).length = tree.size := rfl
        rw [empty] at counted
        exact absurd (lt_of_lt_of_le least facts.2.2.1.1) (by rw [← counted]; simp)
      rcases Context.exists_child nonempty facts.1 located context.parent
        config.internalMaxSize with ⟨frame, child, filled, chosen, childLocated⟩
      have childPlugged : (Context.inside frame context).plug child = whole := by
        rw [Context.plug, ← filled]
        exact plugged
      refine meets_readPage _ (mem_pages_of_plug plugged) (by simp) ?_
      refine meets_require chosen ?_
      refine meets_fetchPage _ (mem_pages_of_plug childPlugged) room.pin ?_
      refine meets_unpinPage ({child.pid} + pins) (by ac_rfl) ?_
      exact ih childPlugged childLocated (Nat.lt_of_succ_lt_succ enough)

/-- The descent to the leaf that is about to change. -/
lemma meets_findLeaf (valid : whole.Valid config) (enough : whole.height < depth)
    (room : budget.Room pins 2) (key : KeyType) :
    TreeMeets budget (whole.tree.pages config none none) ({whole.tree.pid} + pins)
      (findLeafPageGuard key false depth whole.tree.pid) fun result heap pins' =>
        ∃ (context : Context 0) (entries : List (KeyType × Bytes)),
          context.plug (leaf result entries) = whole ∧ context.Reaches key ∧
          heap = {(result, .leaf ⟨context.parent, config.leafMaxSize, context.next,
            entries⟩)} + context.pages config result (some result) ∧ pins' = {result} + pins := by
  refine (meets_findLeafPageGuard valid (plug_root whole) (Context.located_root false key)
    enough room).mono ?_
  rintro leafId heap pins' ⟨rfl, context, found, plugged, reaches, rfl, rfl⟩
  refine ⟨context, LeafNode.entries found, plugged, reaches, ?_, rfl⟩
  rw [← plugged, Context.pages_plug, add_comm]
  rfl

/-- `GetValue` finds what the tree holds. -/
lemma meets_getValue (valid : whole.Valid config) (enough : whole.height < depth)
    (room : budget.Room pins 2) (key : KeyType) :
    TreeMeets budget (whole.tree.pages config none none) pins
      (getValue depth (some whole.tree.pid) key) fun result heap pins' =>
        heap = whole.tree.pages config none none ∧ pins' = pins ∧
        result = lookupEntry key whole.tree.toList := by
  refine meets_fetchPage _ (whole.tree.mem_pages none none) (room.mono (by decide)) ?_
  refine meets_bind (meets_findLeafPageGuard valid (plug_root whole)
    (Context.located_root false key) enough room) ?_
  rintro leafId heap pins' ⟨rfl, context, leaf, plugged, reaches, rfl, rfl⟩
  refine meets_readLeaf _ (mem_pages_of_plug plugged) (by simp) ?_
  refine meets_unpinPage pins rfl ?_
  refine meets_pure ⟨rfl, rfl, ?_⟩
  have facts := Context.valid_plug.mp (plugged ▸ valid)
  have leafOrdered := (inOrder_append.mp (inOrder_append.mp facts.1).1).2.1
  rw [← plugged, reaches.lookup]
  exact LeafPage.lookup_eq (ascending_toList leafOrdered) key

end

end DbEngine.Index
