import DbEngine.Index.Context
import DbEngine.Lib.Slots

/-!
# Rules for tree programs

The rules of page programs for the requests the tree makes, and the loop that changes the
parent of a row of children.
-/

namespace DbEngine.Index

open Multiset (map_add mem_add)
open Lib BPlusTree

/-- `Meets` for programs over tree pages: a new page is blank, and a page never holds more
than one entry above its maximum. -/
abbrev TreeMeets {α : Type} (budget : Budget) (heap : PageHeap Page) (pins : Multiset PageId)
    (prog : TreeProg α) (post : α → PageHeap Page → Multiset PageId → Prop) : Prop :=
  Meets budget Page.blank Page.fits heap pins prog post

lemma mem_singleton_add (entry : PageId × Page) (rest : PageHeap Page) : entry ∈ {entry} + rest :=
  mem_add.mpr (.inl (Multiset.mem_singleton_self entry))

section

variable {α β : Type} {budget : Budget} {heap : PageHeap Page} {pins : Multiset PageId}
  {post : α → PageHeap Page → Multiset PageId → Prop} {pid : PageId} {page : Page}

lemma meets_pure (holds : post result heap pins) :
    TreeMeets budget heap pins (pure result : TreeProg α) post := Meets.done holds

variable {next : Unit → TreeProg α}

lemma meets_fetchPage (page : Page) (owned : (pid, page) ∈ heap) (room : budget.Room pins 1)
    (later : TreeMeets budget heap ({pid} + pins) (next ()) post) :
    TreeMeets budget heap pins (fetchPage pid >>= next) post :=
  Meets.fetch owned (.inr room) later

lemma meets_readPage (page : Page) {next : Page → TreeProg α} (owned : (pid, page) ∈ heap)
    (pinned : pid ∈ pins) (later : TreeMeets budget heap pins (next page) post) :
    TreeMeets budget heap pins (readPage pid >>= next) post := Meets.read owned pinned later

lemma meets_readLeaf (leaf : LeafPage) {next : LeafPage → TreeProg α}
    (owned : (pid, .leaf leaf) ∈ heap) (pinned : pid ∈ pins)
    (later : TreeMeets budget heap pins (next leaf) post) :
    TreeMeets budget heap pins (readLeaf pid >>= next) post := Meets.read owned pinned later

lemma meets_readInternal (internal : InternalPage) {next : InternalPage → TreeProg α}
    (owned : (pid, .internal internal) ∈ heap) (pinned : pid ∈ pins)
    (later : TreeMeets budget heap pins (next internal) post) :
    TreeMeets budget heap pins (readInternal pid >>= next) post := Meets.read owned pinned later

lemma meets_writePage (old : Page) (rest : PageHeap Page) (focus : heap = {(pid, old)} + rest)
    (pinned : pid ∈ pins) (fits : page.fits = true)
    (later : TreeMeets budget ({(pid, page)} + rest) pins (next ()) post) :
    TreeMeets budget heap pins (writePage pid page >>= next) post :=
  Meets.write focus pinned fits later

lemma meets_unpinPage (pins' : Multiset PageId) (focus : pins = {pid} + pins')
    (later : TreeMeets budget heap pins' (next ()) post) :
    TreeMeets budget heap pins (unpinPage pid dirty >>= next) post := Meets.unpin focus later

lemma meets_newPage {next : PageId → TreeProg α} {exhausted : String}
    (room : budget.Room pins 1) (later : ∀ pid, (∀ entry ∈ heap, entry.1 ≠ pid) → pid ∉ pins →
      TreeMeets budget ({(pid, .blank)} + heap) ({pid} + pins) (next pid) post) :
    TreeMeets budget heap pins (newPage exhausted release >>= next) post :=
  Meets.newPage room later

lemma meets_deletePage (old : Page) (rest : PageHeap Page) (focus : heap = {(pid, old)} + rest)
    (unpinned : pid ∈ pins → pid ∈ budget.others)
    (later : TreeMeets budget rest pins (next ()) post) :
    TreeMeets budget heap pins (deletePage pid >>= next) post :=
  Meets.deletePage focus unpinned later

lemma meets_require {next : β → TreeProg α} {value : β} (there : found = some value)
    (later : TreeMeets budget heap pins (next value) post) :
    TreeMeets budget heap pins (require found error >>= next) post := by
  subst there
  exact later

lemma meets_bind {next : β → TreeProg α} {middle : β → PageHeap Page → Multiset PageId → Prop}
    (first : TreeMeets budget heap pins prog middle)
    (later : ∀ result heap' pins', middle result heap' pins' →
      TreeMeets budget heap' pins' (next result) post) :
    TreeMeets budget heap pins (prog >>= next) post := Meets.bind first later

lemma meets_setParent (page : Page) (rest : PageHeap Page) (focus : heap = {(pid, page)} + rest)
    (pinned : pid ∈ pins) (fits : (page.setParentPageId parent).fits = true)
    (later : TreeMeets budget ({(pid, page.setParentPageId parent)} + rest) pins (next ()) post) :
    TreeMeets budget heap pins (setParent pid parent >>= next) post := by
  have owned : (pid, page) ∈ heap := by
    rw [focus]
    simp
  rw [setParent, bind_assoc]
  exact Meets.read owned pinned (Meets.write focus pinned fits later)

end

namespace Tree

variable {config : TreeConfig} {height : Nat}

section

variable (tree : Tree height)
include tree

lemma setParentPageId_page (parent parent' next : Option PageId) :
    (tree.page config parent next).setParentPageId parent' = tree.page config parent' next := by
  cases height <;> rfl

lemma parentPageId_page (parent next : Option PageId) :
    (tree.page config parent next).parentPageId = parent := by
  cases height <;> rfl

lemma size_page (parent next : Option PageId) :
    (tree.page config parent next).size = tree.size := by
  cases height with
  | zero => rfl
  | succ height => exact length_map _

lemma maxSize_page (parent next : Option PageId) :
    (tree.page config parent next).maxSize = config.maxAt height := by
  cases height <;> rfl

lemma minSize_page (parent next : Option PageId) :
    (tree.page config parent next).minSize = config.minAt height := by
  rw [Page.minSize, maxSize_page]
  rfl

/-- A node may hold one entry above its maximum. -/
lemma fits_page (parent next : Option PageId) (small : tree.size ≤ config.maxAt height + 1) :
    (tree.page config parent next).fits = true := by
  have room : config.maxAt height + 1 ≤ (tree.page config parent next).capacity := by
    cases height with
    | zero =>
      have bounds := config.leafBounds.2
      have positive : 0 < LeafPage.capacity := by decide
      simp only [TreeConfig.maxAt, page, Page.capacity]
      omega
    | succ height =>
      have bounds := config.internalBounds.2
      have positive : 0 < InternalPage.capacity := by decide
      simp only [TreeConfig.maxAt, page, Page.capacity]
      omega
  simp only [Page.fits, size_page, maxSize_page, Bool.and_eq_true, decide_eq_true_eq]
  exact ⟨small, le_trans small room⟩

end

variable {tree : Tree height} {children : List (KeyType × Tree height)}

lemma Fits.fits_page (fits : tree.Fits config) (parent next : Option PageId) :
    (tree.page config parent next).fits = true :=
  Tree.fits_page tree parent next (Nat.le_succ_of_le fits.2.1)

lemma fits_internal (parent : Option PageId) (small : entries.length ≤ config.internalMaxSize + 1) :
    Page.fits (.internal ⟨parent, config.internalMaxSize, entries⟩) = true := by
  have bounds := config.internalBounds.2
  have positive : 0 < InternalPage.capacity := by decide
  have room : config.internalMaxSize + 1 ≤ InternalPage.capacity := by omega
  simp only [Page.fits, Bool.and_eq_true, decide_eq_true_eq]
  exact ⟨small, le_trans small room⟩

lemma fits_slots (parent : Option PageId) (small : children.length ≤ config.internalMaxSize + 1) :
    Page.fits (nodePage config parent children) = true :=
  fits_internal parent (le_of_eq_of_le (length_map _) small)

lemma mem_pages (tree : Tree height) (parent next : Option PageId) :
    (tree.pid, tree.page config parent next) ∈ tree.pages config parent next := by
  rw [pages_eq]
  simp

lemma mem_add_pages (others rest : PageHeap Page) (parent next : Option PageId) :
    (tree.pid, tree.page config parent next) ∈ others + (tree.pages config parent next + rest) := by
  rw [mem_add, mem_add]
  exact .inr (.inl (tree.mem_pages parent next))

/-- Every child of a row gets a new parent. -/
lemma meets_updateChildParents {α : Type} {post : α → PageHeap Page → Multiset PageId → Prop}
    {next : Unit → TreeProg α} {parent : PageId} (old after : Option PageId) {budget : Budget}
    {heap : PageHeap Page} (rest : PageHeap Page) {pins : Multiset PageId}
    (room : budget.Room pins 1) (small : ∀ child ∈ children, child.2.size ≤ config.maxAt height)
    (focus : heap = rowPages config old after children + rest)
    (later : TreeMeets budget (rowPages config (some parent) after children + rest) pins (next ())
      post) : TreeMeets budget heap pins
      (updateChildParents parent (children.map fun child => child.2.pid) >>= next) post := by
  subst focus
  induction children generalizing rest with
  | nil => exact later
  | cons head others ih =>
    obtain ⟨key, child⟩ := head
    have smallChild := small (key, child) mem_cons_self
    rw [map_cons, updateChildParents, rowPages_cons, pages_eq]
    simp only [bind_assoc]
    refine meets_fetchPage (child.page config old (firstOf others after)) (by simp) room ?_
    refine meets_setParent (child.page config old (firstOf others after))
      (child.below config (firstOf others after) +
        rowPages config old after others + rest) (by ac_rfl) (by simp) ?_ ?_
    · rw [setParentPageId_page]
      exact fits_page child _ _ (Nat.le_succ_of_le smallChild)
    refine meets_unpinPage _ rfl ?_
    rw [setParentPageId_page]
    have regroup : {(child.pid, child.page config (some parent) (firstOf others after))} +
        (child.below config (firstOf others after) + rowPages config old after others +
          rest) = rowPages config old after others +
        (child.pages config (some parent) (firstOf others after) + rest) := by
      rw [pages_eq child]
      ac_rfl
    rw [regroup]
    refine ih _ (fun other mem => small other (mem_cons_of_mem _ mem)) ?_
    have goal : rowPages config (some parent) after others +
        (child.pages config (some parent) (firstOf others after) + rest) =
        rowPages config (some parent) after ((key, child) :: others) + rest := by
      rw [rowPages_cons]
      ac_rfl
    rw [goal]
    exact later

end Tree

/-! ## Slots -/

open Tree

section

variable {config : TreeConfig} {height : Nat}

lemma slots_append (before after : List (KeyType × Tree height)) :
    slots (before ++ after) = slots before ++ slots after := map_append

lemma pid_mem_pages (tree : Tree height) (parent next : Option PageId) :
    tree.pid ∈ (tree.pages config parent next).map Prod.fst :=
  Multiset.mem_map_of_mem Prod.fst (tree.mem_pages parent next)

lemma pid_mem_rowPages {pid : PageId} (mem : (key, pid) ∈ slots children)
    (parent next : Option PageId) : pid ∈ (rowPages config parent next children).map Prod.fst := by
  induction children with
  | nil => cases mem
  | cons head rest ih =>
    obtain ⟨headKey, child⟩ := head
    rw [rowPages_cons, map_add, mem_add]
    rcases mem_cons.mp mem with here | later
    · rw [(Prod.mk.inj here).2]
      exact .inl (pid_mem_pages child _ _)
    · exact .inr (ih later)

/-- No other child of a node has the page id of the subtree. -/
lemma Context.fresh_slots {pid : PageId}
    (nodup : (((inside frame outer).pages config pid first + rest).map Prod.fst).Nodup)
    (there : pid ∈ rest.map Prod.fst) : ∀ slot ∈ slots frame.before, slot.2 ≠ pid := by
  intro slot member
  refine ne_of_nodup_add nodup ?_ there
  have mem : slot.2 ∈ (rowPages config (some frame.pid) first frame.before).map Prod.fst :=
    pid_mem_rowPages member _ _
  simp only [Context.pages, map_add, mem_add]
  exact .inl (.inl (.inr mem))

/-- The slot of a child is found by its page id. -/
lemma valueIndex_slot {before : List (KeyType × Tree height)} {child : Tree height}
    {key : KeyType} {after : List (KeyType × PageId)} {parent : Option PageId}
    {maxSize : Nat} (fresh : ∀ slot ∈ slots before, slot.2 ≠ child.pid) : InternalPage.valueIndex
      ⟨parent, maxSize, slots before ++ (key, child.pid) :: after⟩ child.pid =
        some before.length := by
  have found : (slots before ++ (key, child.pid) :: after).findIdx?
      (fun slot => decide (slot.2 = child.pid)) = some (slots before).length :=
    findIdx?_slot (fun slot mem => decide_eq_false (fresh slot mem)) (by simp)
  rw [InternalPage.valueIndex, found, slots, length_map]

end

end DbEngine.Index
