import DbEngine.Index.Search

/-!
# Iteration

The leaves of a valid tree are linked from left to right, none of them empty, so an
iterator that starts where a key belongs shows exactly the entries from that key on.
-/

namespace DbEngine.Index

open Lib BPlusTree Tree Context

/-! ## The chain of leaves -/

/-- The first of some leaves, or what comes after them. -/
def firstPid (leaves : List LeafNode) (next : Option PageId) : Option PageId :=
  match leaves with
  | [] => next
  | leaf :: _ => some leaf.pid

/-- The leaves have pages, each linked to the next. -/
def Chained (config : TreeConfig) (heap : PageHeap Page) :
    List LeafNode → Option PageId → Prop
  | [], _ => True
  | leaf :: rest, next =>
    (∃ parent, (leaf.pid, .leaf ⟨parent, config.leafMaxSize, firstPid rest next,
      leaf.entries⟩) ∈ heap) ∧ Chained config heap rest next

section

variable {config : TreeConfig} {heap : PageHeap Page} {height : Nat}

lemma firstPid_append (first second : List LeafNode) (next : Option PageId) :
    firstPid (first ++ second) next = firstPid first (firstPid second next) := by
  cases first <;> rfl

variable {next : Option PageId} {children : List (KeyType × Tree height)} {height : Nat}

lemma chained_append {first second : List LeafNode} : Chained config heap (first ++ second) next ↔
      Chained config heap first (firstPid second next) ∧ Chained config heap second next := by
  induction first with
  | nil => simp [Chained]
  | cons leaf rest ih =>
    simp only [cons_append, Chained, ih, firstPid_append, and_assoc]

lemma Tree.Fits.size_pos {tree : Tree height} (fits : tree.Fits config) : 0 < tree.size :=
  lt_of_lt_of_le (by decide) (le_trans (config.two_le_minAt _) fits.1)

/-- A node with children has leaves, and its leftmost leaf is the first of them. -/
lemma Tree.firstLeaf_eq (tree : Tree height) (sized : tree.Sized config)
    (nonempty : 0 < tree.size) (next : Option PageId) :
    tree.firstLeaf = firstPid tree.leaves next := by
  induction height, tree using Tree.inductOn generalizing next with
  | leaf => rfl
  | node pid children ih =>
    cases children with
    | nil => cases nonempty
    | cons first rest =>
      have fits : first.2.Fits config := sized first mem_cons_self
      have leaves : (node pid (first :: rest)).leaves = first.2.leaves ++ rowLeaves rest := rfl
      rw [leaves, firstPid_append]
      exact ih first mem_cons_self fits.2.2 fits.size_pos _

lemma firstOf_eq (fits : RowFits config children) (next : Option PageId) :
    firstOf children next = firstPid (rowLeaves children) next := by
  cases children with
  | nil => rfl
  | cons first rest =>
    obtain ⟨key, child⟩ := first
    have childFits := fits (key, child) mem_cons_self
    have leaves : rowLeaves ((key, child) :: rest) = child.leaves ++ rowLeaves rest := rfl
    rw [leaves, firstPid_append]
    exact child.firstLeaf_eq childFits.2.2 childFits.size_pos _

lemma chained_row {parent : Option PageId} (fits : RowFits config children)
    (each : ∀ child ∈ children, ∀ next, child.2.pages config parent next ⊆ heap → Chained config
      heap child.2.leaves next) (owned : rowPages config parent next children ⊆ heap) :
    Chained config heap (rowLeaves children) next := by
  induction children with
  | nil => trivial
  | cons first rest ih =>
    obtain ⟨key, child⟩ := first
    obtain ⟨_, restFits⟩ := rowFits_cons.mp fits
    have leaves : rowLeaves ((key, child) :: rest) = child.leaves ++ rowLeaves rest := rfl
    rw [rowPages_cons] at owned
    rw [leaves, chained_append, ← firstOf_eq restFits]
    refine ⟨each (key, child) mem_cons_self _ ?_, ih restFits ?_ ?_⟩
    · intro page mem
      exact owned (Multiset.mem_add.mpr (.inl mem))
    · intro other mem
      exact each other (mem_cons_of_mem _ mem)
    · intro page mem
      exact owned (Multiset.mem_add.mpr (.inr mem))

/-- The leaves of a tree are chained. -/
lemma Tree.chained (tree : Tree height) (sized : tree.Sized config)
    (parent next : Option PageId) (owned : tree.pages config parent next ⊆ heap) :
    Chained config heap tree.leaves next := by
  induction height, tree using Tree.inductOn generalizing parent next with
  | leaf => exact ⟨⟨parent, owned (Multiset.mem_singleton_self _)⟩, trivial⟩
  | node pid children ih =>
    have rowOwned : rowPages config (some pid) next children ⊆ heap := by
      intro page mem
      exact owned (Multiset.mem_add.mpr (.inr mem))
    refine chained_row sized (fun child mem next childOwned => ?_) rowOwned
    exact ih child mem (sized child mem).2.2 _ next childOwned

/-- No leaf of a tree with entries is empty. -/
lemma Tree.leaves_nonempty (tree : Tree height) (sized : tree.Sized config)
    (nonempty : 0 < tree.size) : ∀ leaf ∈ tree.leaves, 0 < leaf.entries.length := by
  induction height, tree using Tree.inductOn with
  | leaf pid entries =>
    intro leaf mem
    rw [mem_singleton.mp mem]
    exact nonempty
  | node pid children ih =>
    intro leaf mem
    obtain ⟨child, childMem, leafMem⟩ := List.mem_flatMap.mp mem
    have fits : child.2.Fits config := sized child childMem
    exact ih child childMem fits.2.2 fits.size_pos leaf leafMem

lemma Tree.flatMap_leaves (tree : Tree height) :
    tree.leaves.flatMap LeafNode.entries = tree.toList := by
  induction height, tree using Tree.inductOn with
  | leaf pid entries => exact append_nil _
  | node pid children ih =>
    have whole : (node pid children).leaves.flatMap LeafNode.entries =
        children.flatMap fun child => child.2.leaves.flatMap LeafNode.entries :=
      List.flatMap_assoc
    rw [whole]
    exact List.flatMap_congr ih

lemma Context.flatMap_rightLeaves (context : Context height) :
    context.rightLeaves.flatMap LeafNode.entries = context.rightEntries := by
  induction context with
  | root => rfl
  | inside frame outer ih =>
    have row : (rowLeaves frame.after).flatMap LeafNode.entries =
        rowEntries frame.after := by
      simp only [rowLeaves, rowEntries, List.flatMap_assoc, Tree.flatMap_leaves]
    rw [rightLeaves, rightEntries, List.flatMap_append, row, ih]

/-- The leaf after a subtree is the first leaf to its right. -/
lemma Context.next_eq (context : Context height) (sized : context.Sized config) :
    context.next = firstPid context.rightLeaves none := by
  induction context with
  | root => rfl
  | inside frame outer ih =>
    obtain ⟨_, afterFits, _, outerSized⟩ := sized
    rw [Context.next, rightLeaves, firstPid_append, ← ih outerSized, firstOf_eq afterFits]

end

/-! ## Iterators -/

section

variable {config : TreeConfig} {heap : PageHeap Page} {budget : Budget} {pins : Multiset PageId}
variable {rest : List LeafNode} {whole : AnyTree} {depth bound : Nat}

lemma meets_enterLeaf (chained : Chained config heap rest none) (room : budget.Room pins 1)
    {α : Type} {post : α → PageHeap Page → Multiset PageId → Prop} {next : Iterator → TreeProg α}
    (ends : rest = [] → TreeMeets budget heap pins (next none) post)
    (enters : ∀ leaf others, rest = leaf :: others →
      TreeMeets budget heap ({leaf.pid} + pins) (next (some (leaf.pid, 0))) post) :
    TreeMeets budget heap pins (enterLeaf (firstPid rest none) >>= next) post := by
  cases rest with
  | nil => exact ends rfl
  | cons leaf others =>
    obtain ⟨⟨parent, owned⟩, _⟩ := chained
    exact Meets.fetch owned (.inr room) (enters leaf others rfl)

lemma collect_none (bound : Nat) : collect bound none = pure [] := by
  cases bound <;> rfl

/-- An iterator shows the rest of its leaf and then the leaves after it. -/
lemma meets_collect (bound : Nat) {leaf : LeafNode} {index : Nat}
    (chained : Chained config heap (leaf :: rest) none) (room : budget.Room pins 1)
    (nonempty : ∀ other ∈ rest, 0 < other.entries.length) (inside : index < leaf.entries.length)
    (enough : (leaf.entries.drop index ++ rest.flatMap LeafNode.entries).length ≤ bound) :
    TreeMeets budget heap ({leaf.pid} + pins) (collect bound (some (leaf.pid, index)))
      fun result heap' pins' => heap' = heap ∧ pins' = pins ∧
        result = leaf.entries.drop index ++ rest.flatMap LeafNode.entries := by
  induction bound generalizing leaf rest index with
  | zero =>
    rw [length_append, length_drop] at enough
    omega
  | succ bound ih =>
    obtain ⟨⟨parent, owned⟩, restChained⟩ := chained
    have here : leaf.entries.drop index = leaf.entries[index] :: leaf.entries.drop (index + 1) :=
      drop_eq_getElem_cons inside
    have found : leaf.entries[index]? = some leaf.entries[index] := getElem?_eq_getElem inside
    rw [here, cons_append, length_cons] at enough
    rw [here, cons_append]
    simp only [collect, current, advance, bind_assoc]
    refine meets_readLeaf _ owned (by simp) (meets_require found ?_)
    refine meets_readLeaf _ owned (by simp) ?_
    by_cases atEnd : leaf.entries.length ≤ index + 1
    · have empty : leaf.entries.drop (index + 1) = [] := List.drop_of_length_le atEnd
      rw [empty, nil_append] at enough ⊢
      rw [if_pos atEnd, bind_assoc]
      refine meets_unpinPage pins rfl (meets_enterLeaf restChained room ?_ ?_)
      · rintro rfl
        simp only [collect_none, pure_bind]
        exact meets_pure ⟨rfl, rfl, rfl⟩
      · rintro second others rfl
        refine meets_bind (ih restChained (fun other mem => nonempty other (mem_cons_of_mem _ mem))
          (nonempty second mem_cons_self) (Nat.le_of_succ_le_succ enough)) ?_
        rintro entries heap' pins' ⟨rfl, rfl, rfl⟩
        exact meets_pure ⟨rfl, rfl, rfl⟩
    · rw [if_neg atEnd, pure_bind]
      refine meets_bind (ih ⟨⟨parent, owned⟩, restChained⟩ nonempty (not_le.mp atEnd)
        (Nat.le_of_succ_le_succ enough)) ?_
      rintro entries heap' pins' ⟨rfl, rfl, rfl⟩
      exact meets_pure ⟨rfl, rfl, rfl⟩

/-- The entries of a tree from a leaf on. -/
lemma whole_entries (valid : whole.Valid config) {context : Context 0} {leaf : Tree 0}
    (plugged : context.plug leaf = whole) : Chained config (whole.tree.pages config none none)
        (LeafNode.mk leaf.pid leaf.toList :: context.rightLeaves) none ∧
      (∀ other ∈ context.rightLeaves, 0 < other.entries.length) ∧ 0 < leaf.size := by
  have leaves : whole.tree.leaves = context.leftLeaves ++
      (LeafNode.mk leaf.pid leaf.toList :: context.rightLeaves) := by
    rw [← plugged, leaves_plug, append_assoc]
    rfl
  have rootPositive : 0 < whole.tree.size := lt_of_lt_of_le (least_pos config _) valid.size.1
  have chained := whole.tree.chained valid.sized none none
    (fun _ mem => mem : _ ⊆ whole.tree.pages config none none)
  have nonempty := whole.tree.leaves_nonempty valid.sized rootPositive
  rw [leaves] at chained nonempty
  refine ⟨(chained_append.mp chained).2, ?_, ?_⟩
  · intro other mem
    exact nonempty other (mem_append_right _ (mem_cons_of_mem _ mem))
  · exact nonempty _ (mem_append_right _ mem_cons_self)

/-- `Begin()` run to its end shows every entry. -/
lemma meets_scanFirst (valid : whole.Valid config) (deep : whole.height < depth)
    (room : budget.Room pins 2) (enough : whole.tree.toList.length ≤ bound) :
    TreeMeets budget (whole.tree.pages config none none) pins
      (beginFirst depth (some whole.tree.pid) >>= collect bound) fun result heap pins' =>
        heap = whole.tree.pages config none none ∧ pins' = pins ∧ result = whole.tree.toList := by
  simp only [beginFirst, bind_assoc, pure_bind]
  refine meets_fetchPage _ (whole.tree.mem_pages none none) (room.mono (by decide)) ?_
  refine meets_bind (meets_findLeafPageGuard valid (plug_root whole)
    (located_root true INVALID_KEY) deep room) ?_
  rintro leafId heap pins' ⟨rfl, context, leaf, plugged, leftmost, rfl, rfl⟩
  obtain ⟨chained, nonempty, positive⟩ := whole_entries valid plugged
  have noneLeft : context.leftLeaves = [] := leftmost
  have entries : whole.tree.toList =
      leaf.toList ++ context.rightLeaves.flatMap LeafNode.entries := by
    rw [← whole.tree.flatMap_leaves, ← plugged, leaves_plug, noneLeft,
      nil_append, List.flatMap_append, leaf.flatMap_leaves]
  rw [entries] at enough ⊢
  exact meets_collect bound chained (room.mono (by decide)) nonempty positive enough

lemma filter_from {left middle right : List (KeyType × Bytes)}
    (below : ∀ entry ∈ left, entry.1 < key) (above : ∀ entry ∈ right, key < entry.1)
    (ascending : Ascending middle) :
    ((left ++ middle ++ right).filter fun entry => decide (key ≤ entry.1)) =
      middle.drop (middle.takeWhile fun entry => decide (entry.1 < key)).length ++ right := by
  have noneLeft : (left.filter fun entry => decide (key ≤ entry.1)) = [] := by
    rw [filter_eq_nil_iff]
    intro entry mem
    simpa using below entry mem
  have allRight : (right.filter fun entry => decide (key ≤ entry.1)) = right := by
    rw [filter_eq_self]
    intro entry mem
    exact decide_eq_true (le_of_lt (above entry mem))
  have dropped : middle.drop (middle.takeWhile fun entry => decide (entry.1 < key)).length =
      middle.dropWhile fun entry => decide (entry.1 < key) := by
    have whole := @List.takeWhile_append_dropWhile _
      (fun entry : KeyType × Bytes => decide (entry.1 < key)) middle
    nth_rewrite 2 [← whole]
    exact drop_left
  rw [filter_append, filter_append, noneLeft, allRight, nil_append, dropped, ascending.dropWhile_lt]

/-- `Begin(key)` run to its end shows the entries from the key on. -/
lemma meets_scanFrom (valid : whole.Valid config) (deep : whole.height < depth)
    (room : budget.Room pins 2) (enough : whole.tree.toList.length ≤ bound) (key : KeyType) :
    TreeMeets budget (whole.tree.pages config none none) pins
      (beginAt depth (some whole.tree.pid) key >>= collect bound) fun result heap pins' =>
        heap = whole.tree.pages config none none ∧ pins' = pins ∧
        result = whole.tree.toList.filter fun entry => decide (key ≤ entry.1) := by
  simp only [beginAt, bind_assoc]
  refine meets_fetchPage _ (whole.tree.mem_pages none none) (room.mono (by decide)) ?_
  refine meets_bind (meets_findLeafPageGuard valid (plug_root whole)
    (located_root false key) deep room) ?_
  rintro leafId heap pins' ⟨rfl, context, leaf, plugged, reaches, rfl, rfl⟩
  obtain ⟨chained, nonempty, positive⟩ := whole_entries valid plugged
  have facts := valid_plug.mp (plugged ▸ valid)
  have ascending := ascending_toList (inOrder_append.mp (inOrder_append.mp facts.1).1).2.1
  let page : LeafPage := ⟨context.parent, config.leafMaxSize, context.next, leaf.toList⟩
  have next : context.next = firstPid context.rightLeaves none := context.next_eq facts.2.1
  have shown : (whole.tree.toList.filter fun entry => decide (key ≤ entry.1)) =
      leaf.toList.drop (page.keyIndex key) ++
        context.rightLeaves.flatMap LeafNode.entries := by
    rw [← plugged, toList_plug, flatMap_rightLeaves]
    exact filter_from reaches.below reaches.above ascending
  have few : (leaf.toList.drop (page.keyIndex key) ++
      context.rightLeaves.flatMap LeafNode.entries).length ≤ bound := by
    rw [← shown]
    exact le_trans (List.length_filter_le _ _) enough
  rw [shown]
  refine meets_readLeaf page (mem_pages_of_plug plugged) (by simp) ?_
  by_cases past : page.entries.length ≤ page.keyIndex key
  · have empty : leaf.toList.drop (page.keyIndex key) = [] := List.drop_of_length_le past
    rw [empty, nil_append] at few ⊢
    rw [if_pos past, bind_assoc]
    refine meets_unpinPage pins rfl ?_
    rw [show page.nextPageId = firstPid context.rightLeaves none from next]
    refine meets_enterLeaf chained.2 (room.mono (by decide)) ?_ ?_
    · intro rest
      rw [collect_none, rest]
      exact meets_pure ⟨rfl, rfl, rfl⟩
    · intro second others rest
      have restChained := chained.2
      rw [rest] at restChained nonempty few ⊢
      exact meets_collect bound restChained (room.mono (by decide))
        (fun other mem => nonempty other (mem_cons_of_mem _ mem))
        (nonempty second mem_cons_self) few
  · rw [if_neg past, pure_bind]
    exact meets_collect bound chained (room.mono (by decide)) nonempty (not_le.mp past) few

end

end DbEngine.Index
