import DbEngine.Index.Operations

/-!
# The tree in a small pool

How many frames `Insert` and `Remove` need, and what is left behind when they end in an
exception.  Others may have pinned pages of the tree, as live iterators do.
-/

namespace DbEngine.Index

open Lib BPlusTree Tree

/-- A call ends without an exception.  The pool has a frame for every page it fetches or
allocates and deletes every page it gives up, but for those that others have pinned, and
the pins are what they were. -/
def Untroubled {α : Type} (frames : Nat) (store : PageStore Page) (prog : TreeProg α) : Prop :=
  ∃ result after, prog.runIn frames .blank Page.fits ⟨store, []⟩ = (.ok result, after) ∧
    (∀ refusal ∈ after.refused, ∃ pid, refusal = .stillPinned pid ∧ store.pins pid ≠ 0) ∧
    ∀ pid, after.store.pins pid = store.pins pid

section

variable {config : TreeConfig} {fuel levels frames : Nat} {root : Option PageId}
  {heap : PageHeap Page} {entries : List (KeyType × Bytes)} {store : PageStore Page}
  {others : Multiset PageId} {key : KeyType} {value : Bytes}

lemma room_of_pinned (holds : store.Holds heap others) {more : Nat}
    (room : store.pinned.card + more ≤ frames) : (Budget.mk frames others).Room others more := by
  rw [holds.card_pinned] at room
  exact room

lemma Untroubled.of_meets {α : Type} {prog : TreeProg α}
    {post : α → PageHeap Page → Prop} (holds : store.Holds heap others)
    (meets : TreeMeets ⟨frames, others⟩ heap others prog fun result heap' pins' =>
      pins' = others ∧ post result heap') : Untroubled frames store prog := by
  rw [← add_zero heap] at holds
  obtain ⟨result, after, heap', pins', ran, holds', rfl, _⟩ := meets 0 ⟨store, []⟩ ⟨holds, nofun⟩
  refine ⟨result, after, ran, ?_, ?_⟩
  · intro refusal mem
    obtain ⟨pid, pinned, rfl⟩ := holds'.excused refusal mem
    exact ⟨pid, rfl, holds.pins_ne_zero pinned⟩
  · intro pid
    rw [holds'.pinned, holds.pinned]

/-- A tree of `levels` levels needs three frames more than it has levels. -/
theorem three_frames_above_height (stored : Stored config root heap entries levels)
    (deep : levels ≤ fuel) (holds : store.Holds heap others)
    (room : store.pinned.card + (levels + 3) ≤ frames) :
    (value.length ≤ MAX_VALUE_SIZE →
      Untroubled frames store (insert config fuel root key value)) ∧
    Untroubled frames store (remove config fuel root key) := by
  have spare := room_of_pinned holds room
  constructor
  · intro small
    exact .of_meets holds (stored.meets_insert deep spare key small)
  · exact .of_meets holds (stored.meets_remove deep spare key)

/-- One leaf with one entry, on the first page. -/
def leafStore : PageStore Page :=
  (emptyStore.alloc ((leaf 1 [(7, [1])]).page smallConfig none none)).unpin 1

lemma leafStore_holds : leafStore.Holds ((leaf 1 [(7, [1])]).pages smallConfig none none) 0 := by
  have unpinned : Unpinned emptyStore := fun _ => rfl
  exact (unpinned.holds.alloc _).unpin

theorem three_frames_above_height_leafStore :
    Untroubled 4 leafStore (insert smallConfig 1 (some 1) 8 [2]) ∧
    Untroubled 4 leafStore (remove smallConfig 1 (some 1) 8) := by
  have stored : Stored smallConfig (some 1) _ _ 1 := .tree (valid_leaf smallConfig 1 7 [1])
  have fits := @three_frames_above_height _ _ _ 4 _ _ _ _ _ 8 [2] stored (Nat.le_refl 1)
    leafStore_holds (by decide)
  exact ⟨fits.1 (by decide), fits.2⟩

/-! ## Rejected values -/

/-- A value that is too long is found out in the leaf: until then `Insert` does what
`GetValue` does. -/
lemma insert_oversized (fuel rootId : Nat) (key : KeyType) (large : MAX_VALUE_SIZE < value.length) :
    insert config fuel (some rootId) key value = getValue fuel (some rootId) key >>= fun _ =>
      .fail (.invalidArgument "LeafPage::Insert: value exceeds MAX_VALUE_SIZE") := by
  simp only [BPlusTree.insert, getValue, bind_assoc, pure_bind, LeafPage.insert, if_pos large]

end

/-- `kMetaPageId`. -/
def metaPageId : PageId := 0

/-- `BPlusTreeEngine::PersistRootPageIdIfChanged`. -/
def persistRootPageIdIfChanged (root : Option PageId) : TreeProg Unit := do
  fetchPage metaPageId
  match ← readPage metaPageId with
  | .metaPage rootPageId =>
    if rootPageId = root then unpinPage metaPageId false
    else do
      writePage metaPageId (.metaPage root)
      unpinPage metaPageId true
  | _ => .fail .wrongPageType

/-- `BPlusTreeEngine::Put`: the root afterwards. -/
def put (config : TreeConfig) (depth : Nat) (root : Option PageId) (key : KeyType)
    (value : Bytes) : TreeProg (Option PageId) := do
  let (_, root) ← insert config depth root key value
  persistRootPageIdIfChanged root
  return root

/-- Puts in a row, each of which may end in an exception: what they end with, and the root
and the pool afterwards. -/
def putAll (config : TreeConfig) (depth frames : Nat) (root : Option PageId) :
    List (KeyType × Bytes) → PagePool Page →
      List (Except (Stop TreeError) (Option PageId)) × Option PageId × PagePool Page
  | [], pool => ([], root, pool)
  | (key, value) :: rest, pool =>
    let (outcome, pool) := (put config depth root key value).runIn frames .blank Page.fits pool
    let root := match outcome with
      | .ok root => root
      | .error _ => root
    let (outcomes, last) := putAll config depth frames root rest pool
    (outcome :: outcomes, last)

/-- What a rejected call ends with. -/
def rejected {α : Type} : Except (Stop TreeError) α :=
  .error (.failed (.invalidArgument "LeafPage::Insert: value exceeds MAX_VALUE_SIZE"))

/-- `GetValue` finds a frame for each page on its way. -/
def Descends (frames fuel : Nat) (root : Option PageId) (key : KeyType) (pool : PagePool Page) :
    Prop :=
  ∃ found after, (getValue fuel root key).runIn frames .blank Page.fits pool = (.ok found, after)

section

variable {config : TreeConfig} {fuel frames : Nat} {root : Option PageId} {pool : PagePool Page}
  {store : PageStore Page} {log : List Refusal}

lemma unpin_pin_pin (store : PageStore Page) (pid other : PageId) :
    ((store.pin pid).pin other).unpin pid = store.pin other := by
  simp only [PageStore.pin, PageStore.unpin, PageStore.mk.injEq, true_and, and_true]
  by_cases same : other = pid
  · subst same
    simp
  · have apart : pid ≠ other := fun eq => same eq.symm
    rw [Function.update_comm same, Function.update_of_ne same, Function.update_of_ne apart]
    simp

lemma unpin_pin (store : PageStore Page) (pid : PageId) : (store.pin pid).unpin pid = store := by
  simp [PageStore.pin, PageStore.unpin]

/-- A run that ends neither well nor with an exception of the tree's own. -/
def Stopped {α : Type} (run : Except (Stop TreeError) α × PagePool Page) : Prop :=
  ∃ stop after, run = (.error stop, after) ∧ ∀ message,
    stop ≠ .failed (.invalidArgument message) ∧ stop ≠ .failed (.runtimeError message)

/-- The descent moves one pin down the tree. -/
lemma runIn_findLeafPageGuard (key : KeyType) (leftmost : Bool) (fuel : Nat) (current : PageId) :
    (∃ leafId, (findLeafPageGuard key leftmost fuel current).runIn frames .blank Page.fits
      ⟨store.pin current, log⟩ = (.ok leafId, ⟨store.pin leafId, log⟩)) ∨
    Stopped ((findLeafPageGuard key leftmost fuel current).runIn frames .blank Page.fits
      ⟨store.pin current, log⟩) := by
  induction fuel generalizing current with
  | zero => exact .inr ⟨_, _, rfl, by simp⟩
  | succ fuel ih =>
    have pinned : (store.pin current).pins current ≠ 0 := by simp [PageStore.pin]
    simp only [findLeafPageGuard, readPage, fetchPage, unpinPage, bind, PageProg.bind,
      PageProg.runIn, if_neg pinned]
    cases (store.pin current).pages current with
    | none => exact .inr ⟨_, _, rfl, by simp⟩
    | some page =>
      cases page with
      | leaf _ => exact .inl ⟨current, rfl⟩
      | internal page =>
        dsimp only
        cases (if leftmost then page.valueAt 0 else page.lookup key) with
        | none => exact .inr ⟨_, _, rfl, by simp⟩
        | some child =>
          have still : ((store.pin current).pin child).pins current ≠ 0 := by
            by_cases same : current = child
            · simp [PageStore.pin, same]
            · simp [PageStore.pin, Function.update_of_ne same]
          simp only [require, PageProg.bind, PageProg.runIn]
          split
          · split
            · simp only [if_true, PageProg.bind, PageProg.runIn, if_neg still, unpin_pin_pin]
              exact ih child
            · exact .inr ⟨_, _, rfl, by simp⟩
          · exact .inr ⟨_, _, rfl, by simp⟩
      | _ => exact .inr ⟨_, _, rfl, by simp⟩

/-- The way to the leaf of a key, with what is done there. -/
lemma runIn_toLeaf {α : Type} (key : KeyType) (fuel rootId : Nat)
    (rest : PageId → LeafPage → TreeProg α) :
    Stopped ((do
      fetchPage rootId
      let leafId ← findLeafPageGuard key false fuel rootId
      let leaf ← readLeaf leafId
      rest leafId leaf : TreeProg α).runIn frames .blank Page.fits pool) ∨
    ∃ leafId leaf, pool.store.pages leafId = some (.leaf leaf) ∧ (do
      fetchPage rootId
      let leafId ← findLeafPageGuard key false fuel rootId
      let leaf ← readLeaf leafId
      rest leafId leaf : TreeProg α).runIn frames .blank Page.fits pool =
        (rest leafId leaf).runIn frames .blank Page.fits
          ⟨pool.store.pin leafId, pool.refused⟩ := by
  simp only [readLeaf, readPage, fetchPage, bind, PageProg.bind, PageProg.runIn]
  split
  · split
    · simp only [if_true, PageProg.bind, PageProg.runIn_bind]
      rcases @runIn_findLeafPageGuard frames pool.store pool.refused key false fuel rootId with
        ⟨leafId, ran⟩ | ⟨stop, after, ran, other⟩
      · have pinned : (pool.store.pin leafId).pins leafId ≠ 0 := by simp [PageStore.pin]
        simp only [ran, PageProg.runIn, if_neg pinned]
        cases found : (pool.store.pin leafId).pages leafId with
        | none => exact .inl ⟨_, _, rfl, by simp⟩
        | some page =>
          cases page with
          | leaf leaf => exact .inr ⟨leafId, leaf, found, rfl⟩
          | _ => exact .inl ⟨_, _, rfl, by simp⟩
      · simp only [ran]
        exact .inl ⟨stop, after, rfl, other⟩
    · exact .inl ⟨_, _, rfl, by simp⟩
  · exact .inl ⟨_, _, rfl, by simp⟩

lemma runIn_getValue (fuel rootId : Nat) (key : KeyType) :
    (∃ found, (getValue fuel (some rootId) key).runIn frames .blank Page.fits pool =
      (.ok found, pool)) ∨
    Stopped ((getValue fuel (some rootId) key).runIn frames .blank Page.fits pool) := by
  rcases runIn_toLeaf key fuel rootId (fun leafId leaf => do
      unpinPage leafId false
      return leaf.lookup key) with stopped | ⟨leafId, leaf, -, ran⟩
  · exact .inr stopped
  · have pinned : (pool.store.pin leafId).pins leafId ≠ 0 := by simp [PageStore.pin]
    refine .inl ⟨leaf.lookup key, ran.trans ?_⟩
    simp only [unpinPage, bind, pure, PageProg.bind, PageProg.runIn, if_neg pinned, unpin_pin]

/-- A value that is too long is rejected, and leaves everything as it was, if and only if the tree
is not empty and the pages on the way to the key find their frames; so does any number of such
values. -/
theorem oversized_puts_change_nothing (config : TreeConfig) (fuel frames : Nat)
    (root : Option PageId) (pool : PagePool Page) (calls : List (KeyType × Bytes))
    (large : ∀ call ∈ calls, MAX_VALUE_SIZE < call.2.length) :
    (∀ call ∈ calls,
      (insert config fuel root call.1 call.2).runIn frames .blank Page.fits pool =
        (rejected, pool) ↔ root ≠ none ∧ Descends frames fuel root call.1 pool) ∧
    ((∀ call ∈ calls, root ≠ none ∧ Descends frames fuel root call.1 pool) →
      putAll config fuel frames root calls pool = (calls.map fun _ => rejected, root, pool)) := by
  have each {key : KeyType} {value : Bytes} (large : MAX_VALUE_SIZE < value.length) :
      (insert config fuel root key value).runIn frames .blank Page.fits pool =
        (rejected, pool) ↔ root ≠ none ∧ Descends frames fuel root key pool := by
    cases root with
    | none =>
      refine iff_of_false (fun same => ?_) fun both => both.1 rfl
      change (PageProg.newPage _).runIn _ _ _ _ = _ at same
      rw [PageProg.runIn] at same
      split at same
      · simp only [LeafPage.insert, if_pos large] at same
        exact Nat.succ_ne_self _ (congrArg (·.2.store.next) same)
      · cases congrArg Prod.fst same
    | some rootId =>
      rw [insert_oversized _ _ _ large, and_iff_right (Option.some_ne_none rootId)]
      change (PageProg.bind _ _).runIn _ _ _ _ = _ ↔ _
      rw [PageProg.runIn_bind, Descends]
      rcases @runIn_getValue frames pool fuel rootId key with
        ⟨found, ran⟩ | ⟨stop, after, ran, other⟩
      · simp only [ran]
        exact iff_of_true rfl ⟨found, pool, rfl⟩
      · simp only [ran]
        refine iff_of_false (fun same => ?_) (by rintro ⟨_, _, ⟨⟩⟩)
        cases same
        exact (other _).1 rfl
  refine ⟨fun call mem => each (large call mem), fun descends => ?_⟩
  induction calls with
  | nil => rfl
  | cons call rest ih =>
    have threw : (put config fuel root call.1 call.2).runIn frames .blank Page.fits pool =
        (rejected, pool) := by
      refine (PageProg.runIn_bind _ _ _).trans ?_
      rw [(each (large _ mem_cons_self)).mpr (descends _ mem_cons_self)]
      rfl
    rw [putAll, threw]
    simp only [rejected] at ih ⊢
    rw [ih (fun other mem => large other (mem_cons_of_mem _ mem))
      fun other mem => descends other (mem_cons_of_mem _ mem)]
    rfl

/-- A value of sixty-five bytes. -/
def longValue : Bytes := replicate 65 0

theorem oversized_puts_change_nothing_leafStore :
    putAll smallConfig 1 1 (some 1) [(8, longValue), (9, longValue)] ⟨leafStore, []⟩ =
      ([rejected, rejected], some 1, ⟨leafStore, []⟩) := by
  have puts := oversized_puts_change_nothing smallConfig 1 1 (some 1) ⟨leafStore, []⟩
    [(8, longValue), (9, longValue)] (by decide)
  refine puts.2 fun call mem => ⟨Option.some_ne_none 1, ?_⟩
  simp only [mem_cons, not_mem_nil, or_false] at mem
  rcases mem with rfl | rfl <;> exact ⟨_, _, rfl⟩

/-- In an empty tree no guard holds the page that is to become the root: a rejected value
leaves it pinned, and in a pool of one frame nothing can be inserted any more. -/
theorem oversized_put_leaks_frame : ∃ after,
    (insert smallConfig 1 none 7 longValue).runIn 1 .blank Page.fits ⟨emptyStore, []⟩ =
        (rejected, after) ∧ emptyStore.pins 1 = 0 ∧ after.store.pins 1 = 1 ∧
      ((insert smallConfig 1 none 7 [1]).runIn 1 .blank Page.fits after).1 = .error (.failed
        (.runtimeError "BPlusTree::Insert: buffer pool exhausted creating root")) :=
  ⟨_, rfl, rfl, rfl, rfl⟩

end

/-! ## Exhausted pools -/

/-- The entries of a leaf. -/
def leafRows : Page → Option (List (KeyType × Bytes))
  | .leaf leaf => some leaf.entries
  | _ => none

@[simp] lemma leafRows_setParentPageId (page : Page) (parent : Option PageId) :
    leafRows (page.setParentPageId parent) = leafRows page := by
  cases page <;> rfl

/-- The page is a leaf with these entries. -/
def LeafHolds (leafId : PageId) (rows : List (KeyType × Bytes)) (store : PageStore Page) : Prop :=
  leafId < store.next ∧ (store.pages leafId).bind leafRows = some rows

section

variable {α β : Type} (leafId : PageId) (rows : List (KeyType × Bytes))

/-- The program leaves the leaf its entries, whatever the pool answers. -/
def Spares : TreeProg α → Prop
  | .done _ | .fail _ => True
  | .fetch _ next => ∀ pinned, Spares (next pinned)
  | .read pid next => ∀ page, (pid = leafId → leafRows page = some rows) → Spares (next page)
  | .write pid page next => (pid = leafId → leafRows page = some rows) ∧ Spares next
  | .unpin _ _ next => Spares next
  | .newPage next => Spares (next none) ∧ ∀ pid ≠ leafId, Spares (next (some pid))
  | .deletePage _ _ => False

variable {leafId rows} {prog : TreeProg α} {pool : PagePool Page}

lemma Spares.runIn (spares : Spares leafId rows prog) (frames : Nat)
    (holds : LeafHolds leafId rows pool.store) :
    LeafHolds leafId rows (prog.runIn frames .blank Page.fits pool).2.store := by
  induction prog generalizing pool with
  | done | fail => exact holds
  | fetch pid next ih =>
    rw [PageProg.runIn]
    split_ifs
    · exact ih _ (spares true) holds
    · exact ih _ (spares false) holds
    · exact holds
  | read pid next ih =>
    rw [PageProg.runIn]
    split
    · exact holds
    · cases found : pool.store.pages pid with
      | none => exact holds
      | some page =>
        refine ih _ (spares page ?_) holds
        rintro rfl
        simpa [found] using holds.2
  | write pid page next ih =>
    rw [PageProg.runIn]
    split_ifs
    · exact holds
    · refine ih spares.2 ⟨holds.1, ?_⟩
      by_cases same : leafId = pid
      · simpa [PageStore.set, same] using spares.1 same.symm
      · simpa [PageStore.set, Function.update_of_ne same] using holds.2
    · exact holds
  | unpin pid dirty next ih =>
    rw [PageProg.runIn]
    split_ifs
    · exact holds
    · exact ih spares holds
  | newPage next ih =>
    rw [PageProg.runIn]
    split_ifs
    · refine ih _ (spares.2 _ holds.1.ne') ⟨Nat.lt_succ_of_lt holds.1, ?_⟩
      simpa [PageStore.alloc, Function.update_of_ne holds.1.ne] using holds.2
    · exact ih _ spares.1 holds
  | deletePage => exact spares.elim

lemma Spares.bind {rest : α → TreeProg β} (first : Spares leafId rows prog)
    (later : ∀ result, Spares leafId rows (rest result)) : Spares leafId rows (prog.bind rest) := by
  induction prog with
  | done result => exact later result
  | fail => trivial
  | fetch pid next ih => exact fun pinned => ih pinned (first pinned)
  | read pid next ih => exact fun page read => ih page (first page read)
  | write pid page next ih => exact ⟨first.1, ih first.2⟩
  | unpin pid dirty next ih => exact ih first
  | newPage next ih => exact ⟨ih _ first.1, fun pid other => ih _ (first.2 pid other)⟩
  | deletePage => exact first.elim

lemma Spares.onFail {cleanup : TreeProg Unit} (first : Spares leafId rows prog)
    (cleans : Spares leafId rows cleanup) : Spares leafId rows (prog.onFail cleanup) := by
  induction prog with
  | done => trivial
  | fail => exact cleans.bind fun _ => trivial
  | fetch pid next ih => exact fun pinned => ih pinned (first pinned)
  | read pid next ih => exact fun page read => ih page (first page read)
  | write pid page next ih => exact ⟨first.1, ih first.2⟩
  | unpin pid dirty next ih => exact ih first
  | newPage next ih => exact ⟨ih _ first.1, fun pid other => ih _ (first.2 pid other)⟩
  | deletePage => exact first.elim

end

section

variable {leafId : PageId} {rows : List (KeyType × Bytes)}

end

end DbEngine.Index
