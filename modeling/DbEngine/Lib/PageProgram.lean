import Mathlib

/-!
# Programs over pages

Code that works on pages through a pool (fetch and pin, read, write, unpin, allocate,
delete) is a tree of such requests, so that one program can be run against several pools.
Here it is run against the simplest one, in which every page stays in memory, and a small
separation logic says what a program does to the pages it owns and to the pins it holds.
-/

namespace DbEngine.Lib

open Multiset (count_eq_zero count_ne_zero map_add mem_add nodup_add)
open Function

/-- Pages are named by numbers. -/
abbrev PageId := Nat

variable {Page Err α β : Type}

/-- A program over pages.  A page is named by its id; a request that the pool may refuse
continues with what it answered. -/
inductive PageProg (Page Err : Type) (α : Type) where
  | done (result : α)
  /-- The program stops: an exception, or an access that has no meaning. -/
  | fail (error : Err)
  /-- Pin a page; `false` if there is no frame for it. -/
  | fetch (pid : PageId) (next : Bool → PageProg Page Err α)
  | read (pid : PageId) (next : Page → PageProg Page Err α)
  | write (pid : PageId) (page : Page) (next : PageProg Page Err α)
  | unpin (pid : PageId) (dirty : Bool) (next : PageProg Page Err α)
  /-- Allocate a page and pin it; `none` if there is no frame for it. -/
  | newPage (next : Option PageId → PageProg Page Err α)
  | deletePage (pid : PageId) (next : PageProg Page Err α)

namespace PageProg

/-- Continue with the result. -/
def bind : PageProg Page Err α → (α → PageProg Page Err β) → PageProg Page Err β
  | .done result, rest => rest result
  | .fail error, _ => .fail error
  | .fetch pid next, rest => .fetch pid fun pinned => (next pinned).bind rest
  | .read pid next, rest => .read pid fun page => (next page).bind rest
  | .write pid page next, rest => .write pid page (next.bind rest)
  | .unpin pid dirty next, rest => .unpin pid dirty (next.bind rest)
  | .newPage next, rest => .newPage fun pid => (next pid).bind rest
  | .deletePage pid next, rest => .deletePage pid (next.bind rest)

instance : Monad (PageProg Page Err) where
  pure := .done
  bind := bind

lemma bind_assoc {γ : Type} (prog : PageProg Page Err α)
    (first : α → PageProg Page Err β) (second : β → PageProg Page Err γ) :
    (prog.bind first).bind second = prog.bind fun result => (first result).bind second := by
  induction prog with
  | done result | fail error => rfl
  | fetch pid next ih => exact congrArg (PageProg.fetch pid) (funext ih)
  | read pid next ih => exact congrArg (PageProg.read pid) (funext ih)
  | write pid page next ih => exact congrArg (PageProg.write pid page) ih
  | unpin pid dirty next ih => exact congrArg (PageProg.unpin pid dirty) ih
  | newPage next ih => exact congrArg PageProg.newPage (funext ih)
  | deletePage pid next ih => exact congrArg (PageProg.deletePage pid) ih

lemma bind_done (prog : PageProg Page Err α) : prog.bind .done = prog := by
  induction prog with
  | done result | fail error => rfl
  | fetch pid next ih => exact congrArg (PageProg.fetch pid) (funext ih)
  | read pid next ih => exact congrArg (PageProg.read pid) (funext ih)
  | write pid page next ih => exact congrArg (PageProg.write pid page) ih
  | unpin pid dirty next ih => exact congrArg (PageProg.unpin pid dirty) ih
  | newPage next ih => exact congrArg PageProg.newPage (funext ih)
  | deletePage pid next ih => exact congrArg (PageProg.deletePage pid) ih

instance : LawfulMonad (PageProg Page Err) :=
  LawfulMonad.mk' _ bind_done (fun _ _ => rfl) bind_assoc

/-- Run a clean-up before a failure propagates, as destructors do. -/
def onFail : PageProg Page Err α → PageProg Page Err Unit → PageProg Page Err α
  | .done result, _ => .done result
  | .fail error, cleanup => cleanup.bind fun _ => .fail error
  | .fetch pid next, cleanup => .fetch pid fun pinned => (next pinned).onFail cleanup
  | .read pid next, cleanup => .read pid fun page => (next page).onFail cleanup
  | .write pid page next, cleanup => .write pid page (next.onFail cleanup)
  | .unpin pid dirty next, cleanup => .unpin pid dirty (next.onFail cleanup)
  | .newPage next, cleanup => .newPage fun pid => (next pid).onFail cleanup
  | .deletePage pid next, cleanup => .deletePage pid (next.onFail cleanup)

end PageProg

/-! ## Pages in memory -/

/-- All pages in memory, with their pins.  Ids are handed out in order. -/
structure PageStore (Page : Type) where
  pages : PageId → Option Page
  pins : PageId → Nat
  next : PageId

/-- Why a run stops. -/
inductive Stop (Err : Type) where
  | failed (error : Err)
  /-- An access to a page that does not exist. -/
  | missing (pid : PageId)
  /-- An access to a page that is not pinned. -/
  | unpinned (pid : PageId)
  /-- A page was given contents it must never have. -/
  | refused (pid : PageId)
  deriving Repr, DecidableEq

namespace PageStore

def pin (store : PageStore Page) (pid : PageId) : PageStore Page :=
  { store with pins := update store.pins pid (store.pins pid + 1) }

def unpin (store : PageStore Page) (pid : PageId) : PageStore Page :=
  { store with pins := update store.pins pid (store.pins pid - 1) }

def set (store : PageStore Page) (pid : PageId) (page : Page) : PageStore Page :=
  { store with pages := update store.pages pid (some page) }

/-- A new page with the given contents, pinned. -/
def alloc (store : PageStore Page) (blank : Page) : PageStore Page where
  pages := update store.pages store.next (some blank)
  pins := update store.pins store.next 1
  next := store.next + 1

/-- A pinned page is not deleted. -/
def delete (store : PageStore Page) (pid : PageId) : PageStore Page :=
  if store.pins pid = 0 then
    { store with pages := update store.pages pid none }
  else
    store

end PageStore

/-- Run a program with every page in memory.  `blank` is what a new page holds; a write
of contents that are not `allowed` stops the run. -/
def PageProg.run (blank : Page) (allowed : Page → Bool) :
    PageProg Page Err α → PageStore Page → Except (Stop Err) (α × PageStore Page)
  | .done result, store => .ok (result, store)
  | .fail error, _ => .error (.failed error)
  | .fetch pid next, store =>
    if (store.pages pid).isSome then (next true).run blank allowed (store.pin pid)
    else .error (.missing pid)
  | .read pid next, store =>
    if store.pins pid = 0 then .error (.unpinned pid)
    else
      match store.pages pid with
      | none => .error (.missing pid)
      | some page => (next page).run blank allowed store
  | .write pid page next, store =>
    if store.pins pid = 0 then .error (.unpinned pid)
    else if allowed page then next.run blank allowed (store.set pid page)
    else .error (.refused pid)
  | .unpin pid _ next, store =>
    if store.pins pid = 0 then .error (.unpinned pid)
    else next.run blank allowed (store.unpin pid)
  | .newPage next, store => (next (some store.next)).run blank allowed (store.alloc blank)
  | .deletePage pid next, store => next.run blank allowed (store.delete pid)

/-! ## A pool with few frames -/

/-- A request that a pool turns down. -/
inductive Refusal where
  /-- There is no frame for a page that is fetched or allocated. -/
  | noFrame
  /-- The page to delete is pinned. -/
  | stillPinned (pid : PageId)
  deriving Repr, DecidableEq

/-- The pages behind a pool, and the requests it has turned down, the last one first. -/
structure PagePool (Page : Type) where
  store : PageStore Page
  refused : List Refusal

/-- The pages that are pinned; each takes a frame. -/
def PageStore.pinned (store : PageStore Page) : Finset PageId :=
  (Finset.range store.next).filter fun pid => store.pins pid ≠ 0

def PagePool.refuse (pool : PagePool Page) (refusal : Refusal) : PagePool Page :=
  { pool with refused := refusal :: pool.refused }

/-- Run a program against a pool of `frames` frames.  A page that is not pinned gives up its
frame when another page needs it, so that a request finds a frame unless all of them hold
pinned pages. -/
def PageProg.runIn (frames : Nat) (blank : Page) (allowed : Page → Bool) :
    PageProg Page Err α → PagePool Page → Except (Stop Err) α × PagePool Page
  | .done result, pool => (.ok result, pool)
  | .fail error, pool => (.error (.failed error), pool)
  | .fetch pid next, pool =>
    if (pool.store.pages pid).isSome then
      if pool.store.pins pid ≠ 0 ∨ pool.store.pinned.card < frames then
        (next true).runIn frames blank allowed { pool with store := pool.store.pin pid }
      else
        (next false).runIn frames blank allowed (pool.refuse .noFrame)
    else (.error (.missing pid), pool)
  | .read pid next, pool =>
    if pool.store.pins pid = 0 then (.error (.unpinned pid), pool)
    else
      match pool.store.pages pid with
      | none => (.error (.missing pid), pool)
      | some page => (next page).runIn frames blank allowed pool
  | .write pid page next, pool =>
    if pool.store.pins pid = 0 then (.error (.unpinned pid), pool)
    else if allowed page then
      next.runIn frames blank allowed { pool with store := pool.store.set pid page }
    else (.error (.refused pid), pool)
  | .unpin pid _ next, pool =>
    if pool.store.pins pid = 0 then (.error (.unpinned pid), pool)
    else next.runIn frames blank allowed { pool with store := pool.store.unpin pid }
  | .newPage next, pool =>
    if pool.store.pinned.card < frames then
      (next (some pool.store.next)).runIn frames blank allowed
        { pool with store := pool.store.alloc blank }
    else
      (next none).runIn frames blank allowed (pool.refuse .noFrame)
  | .deletePage pid next, pool =>
    if pool.store.pins pid = 0 then
      next.runIn frames blank allowed { pool with store := pool.store.delete pid }
    else
      next.runIn frames blank allowed (pool.refuse (.stillPinned pid))

section

variable {frames : Nat} {blank : Page} {allowed : Page → Bool}

lemma PageProg.runIn_bind (prog : PageProg Page Err α) (rest : α → PageProg Page Err β)
    (pool : PagePool Page) : (prog.bind rest).runIn frames blank allowed pool =
      match prog.runIn frames blank allowed pool with
      | (.ok result, after) => (rest result).runIn frames blank allowed after
      | (.error stop, after) => (.error stop, after) := by
  induction prog generalizing pool with
  | done | fail => rfl
  | fetch _ _ ih | newPage _ ih =>
    simp only [bind, runIn]
    split_ifs <;> first | rfl | exact ih _ _
  | read pid next ih =>
    simp only [bind, runIn]
    cases pool.store.pages pid <;> split_ifs <;> first | rfl | exact ih _ _
  | write _ _ _ ih | unpin _ _ _ ih | deletePage _ _ ih =>
    simp only [bind, runIn]
    split_ifs <;> first | rfl | exact ih _

/-- A clean-up runs only if the program fails. -/
lemma PageProg.runIn_onFail (prog : PageProg Page Err α) (cleanup : PageProg Page Err Unit)
    (pool : PagePool Page) : (prog.onFail cleanup).runIn frames blank allowed pool =
      match prog.runIn frames blank allowed pool with
      | (.error (.failed error), after) =>
        (cleanup.bind fun _ => .fail error : PageProg Page Err α).runIn frames blank allowed after
      | outcome => outcome := by
  induction prog generalizing pool with
  | done | fail => rfl
  | fetch _ _ ih | newPage _ ih =>
    simp only [onFail, runIn]
    split_ifs <;> first | rfl | exact ih _ _
  | read pid next ih =>
    simp only [onFail, runIn]
    cases pool.store.pages pid <;> split_ifs <;> first | rfl | exact ih _ _
  | write _ _ _ ih | unpin _ _ _ ih | deletePage _ _ ih =>
    simp only [onFail, runIn]
    split_ifs <;> first | rfl | exact ih _

/-- The frames do not matter to a program that always finds one.  A refusal is never
forgotten, so that the log at the end tells. -/
lemma PageProg.run_of_runIn (prog : PageProg Page Err α) (pool : PagePool Page) :
    pool.refused ⊆ (prog.runIn frames blank allowed pool).2.refused ∧
    (.noFrame ∉ (prog.runIn frames blank allowed pool).2.refused →
      prog.run blank allowed pool.store = match prog.runIn frames blank allowed pool with
        | (.ok result, after) => .ok (result, after.store)
        | (.error stop, _) => .error stop) := by
  have stopped {log : List Refusal} {goal : Prop} (same : goal) :
      log ⊆ log ∧ (.noFrame ∉ log → goal) := ⟨List.Subset.refl log, fun _ => same⟩
  have starved {old log : List Refusal} {goal : Prop} (grown : .noFrame :: old ⊆ log) :
      old ⊆ log ∧ (.noFrame ∉ log → goal) :=
    ⟨fun _ mem => grown (List.mem_cons_of_mem _ mem),
      fun fed => absurd (grown List.mem_cons_self) fed⟩
  induction prog generalizing pool with
  | done | fail => exact stopped rfl
  | fetch pid next ih =>
    simp only [run, runIn]
    split
    · split
      · exact ih true ⟨pool.store.pin pid, pool.refused⟩
      · exact starved (ih false (pool.refuse .noFrame)).1
    · exact stopped rfl
  | read pid next ih =>
    simp only [run, runIn]
    split
    · exact stopped rfl
    · split
      · exact stopped rfl
      · exact ih _ pool
  | write pid page next ih =>
    simp only [run, runIn]
    split
    · exact stopped rfl
    · split
      · exact ih ⟨pool.store.set pid page, pool.refused⟩
      · exact stopped rfl
  | unpin pid dirty next ih =>
    simp only [run, runIn]
    split
    · exact stopped rfl
    · exact ih ⟨pool.store.unpin pid, pool.refused⟩
  | newPage next ih =>
    simp only [run, runIn]
    split
    · exact ih _ ⟨pool.store.alloc blank, pool.refused⟩
    · exact starved (ih none (pool.refuse .noFrame)).1
  | deletePage pid next ih =>
    simp only [run, runIn]
    split
    · exact ih ⟨pool.store.delete pid, pool.refused⟩
    next pinned =>
      have kept := ih (pool.refuse (.stillPinned pid))
      refine ⟨fun _ mem => kept.1 (List.mem_cons_of_mem _ mem), fun fed => ?_⟩
      rw [PageStore.delete, if_neg pinned]
      exact kept.2 fed

end

/-! ## What a program owns -/

/-- The pages of a heap, each once. -/
abbrev PageHeap (Page : Type) := Multiset (PageId × Page)

/-- Pages in two parts of a heap are different pages. -/
lemma ne_of_nodup_add {first second : PageHeap Page} {pid other : PageId}
    (nodup : ((first + second).map Prod.fst).Nodup) (here : pid ∈ first.map Prod.fst)
    (there : other ∈ second.map Prod.fst) : pid ≠ other := by
  rw [map_add] at nodup
  rintro rfl
  exact Multiset.disjoint_left.mp (nodup_add.mp nodup).2.2 here there

/-- The heap's pages are in the store, and the pins are the store's pins. -/
structure PageStore.Holds (store : PageStore Page) (heap : PageHeap Page)
    (pins : Multiset PageId) : Prop where
  nodup : (heap.map Prod.fst).Nodup
  stored : ∀ entry ∈ heap, store.pages entry.1 = some entry.2 ∧ entry.1 < store.next
  pinned : ∀ pid, store.pins pid = pins.count pid
  bounded : ∀ pid ∈ pins, pid < store.next

namespace PageStore.Holds

variable {store : PageStore Page} {heap rest : PageHeap Page} {pins : Multiset PageId}
  {pid : PageId} {old page : Page}

lemma pages_eq (holds : store.Holds heap pins) (mem : (pid, page) ∈ heap) :
    store.pages pid = some page := (holds.stored _ mem).1

lemma pins_ne_zero (holds : store.Holds heap pins) (mem : pid ∈ pins) : store.pins pid ≠ 0 := by
  rw [holds.pinned, count_ne_zero]
  exact mem

lemma pins_eq_zero (holds : store.Holds heap pins) (absent : pid ∉ pins) : store.pins pid = 0 := by
  rw [holds.pinned, count_eq_zero]
  exact absent

lemma pin (holds : store.Holds heap pins) (mem : (pid, page) ∈ heap) :
    (store.pin pid).Holds heap ({pid} + pins) where
  nodup := holds.nodup
  stored := holds.stored
  pinned other := by
    by_cases same : other = pid
    · subst same
      simp [PageStore.pin, holds.pinned]
    · simp [PageStore.pin, same, holds.pinned]
  bounded other otherMem := by
    rcases mem_add.mp otherMem with new | old
    · rw [Multiset.mem_singleton.mp new]
      exact (holds.stored _ mem).2
    · exact holds.bounded other old

lemma unpin (holds : store.Holds heap ({pid} + pins)) : (store.unpin pid).Holds heap pins where
  nodup := holds.nodup
  stored := holds.stored
  pinned other := by
    by_cases same : other = pid
    · subst same
      simp [PageStore.unpin, holds.pinned]
    · simp [PageStore.unpin, same, holds.pinned]
  bounded other mem := holds.bounded other (mem_add.mpr (Or.inr mem))

lemma not_mem_rest (holds : store.Holds ({(pid, old)} + rest) pins) (mem : entry ∈ rest) :
    entry.1 ≠ pid := by
  have nodup := holds.nodup
  rw [map_add, Multiset.map_singleton, Multiset.singleton_add,
    Multiset.nodup_cons] at nodup
  intro same
  exact nodup.1 (Multiset.mem_map.mpr ⟨entry, mem, same⟩)

lemma set (holds : store.Holds ({(pid, old)} + rest) pins) :
    (store.set pid page).Holds ({(pid, page)} + rest) pins where
  nodup := by
    have nodup := holds.nodup
    rw [map_add, Multiset.map_singleton] at nodup ⊢
    exact nodup
  stored entry mem := by
    rcases mem_add.mp mem with here | there
    · rw [Multiset.mem_singleton.mp here]
      have bound := (holds.stored (pid, old) (by simp)).2
      exact ⟨by simp [PageStore.set], bound⟩
    · have ne := holds.not_mem_rest there
      have stored := holds.stored entry (mem_add.mpr (Or.inr there))
      exact ⟨by simp [PageStore.set, ne, stored.1], stored.2⟩
  pinned := holds.pinned
  bounded := holds.bounded

/-- A page may be given up without being deleted. -/
lemma drop (holds : store.Holds ({(pid, old)} + rest) pins) : store.Holds rest pins where
  nodup := by
    have nodup := holds.nodup
    rw [map_add] at nodup
    exact (nodup_add.mp nodup).2.1
  stored entry mem := holds.stored entry (mem_add.mpr (Or.inr mem))
  pinned := holds.pinned
  bounded := holds.bounded

lemma delete (holds : store.Holds ({(pid, old)} + rest) pins) (absent : pid ∉ pins) :
    (store.delete pid).Holds rest pins := by
  rw [PageStore.delete, if_pos (holds.pins_eq_zero absent)]
  exact { holds.drop with
    stored := by
      intro entry mem
      have stored := holds.drop.stored entry mem
      exact ⟨by simp [holds.not_mem_rest mem, stored.1], stored.2⟩ }

lemma next_not_mem (holds : store.Holds heap pins) :
    (∀ entry ∈ heap, entry.1 ≠ store.next) ∧ store.next ∉ pins := by
  refine ⟨?_, ?_⟩
  · intro entry mem
    exact Nat.ne_of_lt (holds.stored entry mem).2
  · intro mem
    exact absurd (holds.bounded _ mem) (lt_irrefl _)

lemma alloc (holds : store.Holds heap pins) (blank : Page) :
    (store.alloc blank).Holds ({(store.next, blank)} + heap) ({store.next} + pins) where
  nodup := by
    rw [map_add, Multiset.map_singleton, Multiset.singleton_add,
      Multiset.nodup_cons]
    refine ⟨?_, holds.nodup⟩
    intro mem
    obtain ⟨entry, entryMem, same⟩ := Multiset.mem_map.mp mem
    exact holds.next_not_mem.1 entry entryMem same
  stored entry mem := by
    rcases mem_add.mp mem with new | old
    · rw [Multiset.mem_singleton.mp new]
      exact ⟨by simp [PageStore.alloc], Nat.lt_succ_self _⟩
    · have stored := holds.stored entry old
      have ne := holds.next_not_mem.1 entry old
      exact ⟨by simp [PageStore.alloc, ne, stored.1], Nat.lt_succ_of_lt stored.2⟩
  pinned other := by
    by_cases same : other = store.next
    · subst same
      have none := count_eq_zero.mpr holds.next_not_mem.2
      simp [PageStore.alloc, none]
    · simp [PageStore.alloc, same, holds.pinned]
  bounded other mem := by
    rcases mem_add.mp mem with new | old
    · rw [Multiset.mem_singleton.mp new]
      exact Nat.lt_succ_self _
    · exact Nat.lt_succ_of_lt (holds.bounded other old)

end PageStore.Holds

/-- What a program may count on: the frames of the pool, and the pages that others have
pinned, which it cannot delete. -/
structure Budget where
  frames : Nat
  others : Multiset PageId

/-- The store holds the heap, and the pool refused no more than to delete pages of others. -/
structure PagePool.Holds (pool : PagePool Page) (budget : Budget) (heap : PageHeap Page)
    (pins : Multiset PageId) : Prop extends pool.store.Holds heap pins where
  excused : ∀ refusal ∈ pool.refused, ∃ pid ∈ budget.others, refusal = .stillPinned pid

/-- Beside the pinned pages there is room for more. -/
def Budget.Room (budget : Budget) (pins : Multiset PageId) (more : Nat) : Prop :=
  pins.toFinset.card + more ≤ budget.frames

section

variable {budget : Budget} {pins : Multiset PageId} {more : Nat} {pid : PageId}

lemma Budget.Room.mono (room : budget.Room pins more) (le : less ≤ more) :
    budget.Room pins less := Nat.le_trans (Nat.add_le_add_left le _) room

lemma Budget.Room.pin (room : budget.Room pins (more + 1)) : budget.Room ({pid} + pins) more := by
  have grown := Finset.card_union_le {pid} pins.toFinset
  rw [Finset.card_singleton] at grown
  rw [Budget.Room, Multiset.toFinset_add, Multiset.toFinset_singleton]
  rw [Budget.Room] at room
  omega

/-- A page that is pinned already needs no other frame. -/
lemma Budget.Room.repin (room : budget.Room pins more) (pinned : pid ∈ pins) :
    budget.Room ({pid} + pins) more := by
  rw [Budget.Room, Multiset.toFinset_add, Multiset.toFinset_singleton,
    Finset.singleton_union, Finset.insert_eq_of_mem (Multiset.mem_toFinset.mpr pinned)]
  exact room

lemma PageStore.Holds.card_pinned {store : PageStore Page} {heap : PageHeap Page}
    (holds : store.Holds heap pins) : store.pinned.card = pins.toFinset.card := by
  congr 1
  ext pid
  rw [PageStore.pinned, Finset.mem_filter, Finset.mem_range, holds.pinned,
    count_ne_zero, Multiset.mem_toFinset]
  exact and_iff_right_of_imp (holds.bounded pid)

lemma PageStore.Holds.has_frame {store : PageStore Page} {heap : PageHeap Page}
    (holds : store.Holds heap pins) (room : budget.Room pins 1) :
    store.pinned.card < budget.frames := by
  rw [holds.card_pinned]
  exact room

end

/-- From a heap and pins, the program runs to its end, is refused nothing within its budget,
and leaves a heap and pins as promised, whatever else the store holds. -/
def Meets (budget : Budget) (blank : Page) (allowed : Page → Bool) (heap : PageHeap Page)
    (pins : Multiset PageId) (prog : PageProg Page Err α)
    (post : α → PageHeap Page → Multiset PageId → Prop) : Prop :=
  ∀ frame pool, PagePool.Holds pool budget (heap + frame) pins →
    ∃ result after heap' pins',
      prog.runIn budget.frames blank allowed pool = (.ok result, after) ∧
      PagePool.Holds after budget (heap' + frame) pins' ∧ post result heap' pins'

namespace Meets

variable {budget : Budget} {blank : Page} {allowed : Page → Bool} {heap rest : PageHeap Page}
  {pins : Multiset PageId} {post : α → PageHeap Page → Multiset PageId → Prop}
  {pid : PageId} {page old : Page}

lemma done (holds : post result heap pins) :
    Meets budget blank allowed heap pins (.done result : PageProg Page Err α) post := by
  intro frame pool start
  exact ⟨result, pool, heap, pins, rfl, start, holds⟩

/-- A fetch needs a frame, unless the page has one. -/
lemma fetch {next : Bool → PageProg Page Err α} (owned : (pid, page) ∈ heap)
    (found : pid ∈ pins ∨ budget.Room pins 1)
    (later : Meets budget blank allowed heap ({pid} + pins) (next true) post) :
    Meets budget blank allowed heap pins (.fetch pid next) post := by
  intro frame pool start
  have mem : (pid, page) ∈ heap + frame := mem_add.mpr (Or.inl owned)
  obtain ⟨result, after, rest⟩ := later frame ⟨_, pool.refused⟩ ⟨start.pin mem, start.excused⟩
  refine ⟨result, after, ?_⟩
  rw [PageProg.runIn, if_pos (by rw [start.pages_eq mem]; rfl),
    if_pos (found.imp start.pins_ne_zero start.has_frame)]
  exact rest

lemma read {next : Page → PageProg Page Err α} (owned : (pid, page) ∈ heap)
    (pinned : pid ∈ pins) (later : Meets budget blank allowed heap pins (next page) post) :
    Meets budget blank allowed heap pins (.read pid next) post := by
  intro frame pool start
  have mem : (pid, page) ∈ heap + frame := mem_add.mpr (Or.inl owned)
  obtain ⟨result, after, rest⟩ := later frame pool start
  refine ⟨result, after, ?_⟩
  simp only [PageProg.runIn, start.pins_ne_zero pinned, if_false, start.pages_eq mem]
  exact rest

variable {next prog : PageProg Page Err α}

lemma write (focus : heap = {(pid, old)} + rest) (pinned : pid ∈ pins) (good : allowed page = true)
    (later : Meets budget blank allowed ({(pid, page)} + rest) pins next post) :
    Meets budget blank allowed heap pins (.write pid page next) post := by
  subst focus
  intro frame pool start
  have changed : (pool.store.set pid page).Holds ({(pid, page)} + rest + frame) pins := by
    have held := start.toHolds
    rw [add_assoc] at held ⊢
    exact held.set
  obtain ⟨result, after, rest⟩ := later frame ⟨_, pool.refused⟩ ⟨changed, start.excused⟩
  refine ⟨result, after, ?_⟩
  simp only [PageProg.runIn, start.pins_ne_zero pinned, if_false, good, if_true]
  exact rest

lemma unpin (focus : pins = {pid} + pins')
    (later : Meets budget blank allowed heap pins' next post) :
    Meets budget blank allowed heap pins (.unpin pid dirty next) post := by
  subst focus
  intro frame pool start
  obtain ⟨result, after, rest⟩ := later frame ⟨_, pool.refused⟩ ⟨start.unpin, start.excused⟩
  refine ⟨result, after, ?_⟩
  simp only [PageProg.runIn, start.pins_ne_zero (mem_add.mpr (Or.inl
    (Multiset.mem_singleton_self pid))), if_false]
  exact rest

lemma newPage {next : Option PageId → PageProg Page Err α} (room : budget.Room pins 1)
    (later : ∀ pid, (∀ entry ∈ heap, entry.1 ≠ pid) → pid ∉ pins →
      Meets budget blank allowed ({(pid, blank)} + heap) ({pid} + pins) (next (some pid)) post) :
    Meets budget blank allowed heap pins (.newPage next) post := by
  intro frame pool start
  have fresh := start.next_not_mem
  have allocated : (pool.store.alloc blank).Holds ({(pool.store.next, blank)} + heap + frame)
      ({pool.store.next} + pins) := by
    rw [add_assoc]
    exact start.alloc blank
  rw [PageProg.runIn, if_pos (start.has_frame room)]
  exact later _ (fun entry mem => fresh.1 entry (mem_add.mpr (Or.inl mem)))
    fresh.2 frame _ ⟨allocated, start.excused⟩

/-- A page that others have pinned stays where it is, but nothing refers to it any more. -/
lemma deletePage (focus : heap = {(pid, old)} + rest) (unpinned : pid ∈ pins → pid ∈ budget.others)
    (later : Meets budget blank allowed rest pins next post) :
    Meets budget blank allowed heap pins (.deletePage pid next) post := by
  subst focus
  intro frame pool start
  have held := start.toHolds
  rw [add_assoc] at held
  rw [PageProg.runIn]
  split
  next free =>
    refine later frame _ ⟨held.delete ?_, start.excused⟩
    exact count_eq_zero.mp ((held.pinned pid).symm.trans free)
  next taken =>
    refine later frame _ ⟨held.drop, fun refusal mem => ?_⟩
    rcases List.mem_cons.mp mem with rfl | earlier
    · refine ⟨pid, unpinned (count_ne_zero.mp ?_), rfl⟩
      rw [← held.pinned]
      exact taken
    · exact start.excused refusal earlier

lemma bind {prog : PageProg Page Err β} {next : β → PageProg Page Err α}
    {middle : β → PageHeap Page → Multiset PageId → Prop}
    (first : Meets budget blank allowed heap pins prog middle)
    (later : ∀ result heap' pins', middle result heap' pins' →
      Meets budget blank allowed heap' pins' (next result) post) :
    Meets budget blank allowed heap pins (prog.bind next) post := by
  intro frame pool start
  obtain ⟨result, after, heap', pins', ran, holds, meets⟩ := first frame pool start
  obtain ⟨final, last, rest⟩ := later result heap' pins' meets frame after holds
  refine ⟨final, last, ?_⟩
  rw [PageProg.runIn_bind, ran]
  exact rest

lemma onFail (first : Meets budget blank allowed heap pins prog post) :
    Meets budget blank allowed heap pins (prog.onFail cleanup) post := by
  intro frame pool start
  obtain ⟨result, after, heap', pins', ran, rest⟩ := first frame pool start
  refine ⟨result, after, heap', pins', ?_, rest⟩
  rw [PageProg.runIn_onFail, ran]

lemma mono {post' : α → PageHeap Page → Multiset PageId → Prop}
    (first : Meets budget blank allowed heap pins prog post)
    (weaker : ∀ result heap' pins', post result heap' pins' → post' result heap' pins') :
    Meets budget blank allowed heap pins prog post' := by
  intro frame pool start
  obtain ⟨result, after, heap', pins', ran, holds, meets⟩ := first frame pool start
  exact ⟨result, after, heap', pins', ran, holds, weaker _ _ _ meets⟩

/-- What a program does not own, it does not change. -/
lemma frame (first : Meets budget blank allowed heap pins prog post) (extra : PageHeap Page) :
    Meets budget blank allowed (heap + extra) pins prog fun result heap' pins' =>
      ∃ own, heap' = own + extra ∧ post result own pins' := by
  intro frame pool start
  rw [add_assoc] at start
  obtain ⟨result, after, own, pins', ran, holds, meets⟩ := first (extra + frame) pool start
  rw [← add_assoc] at holds
  exact ⟨result, after, own + extra, pins', ran, holds, own, rfl, meets⟩

/-- The pages of a heap are distinct. -/
lemma of_nodup
    (later : (heap.map Prod.fst).Nodup → Meets budget blank allowed heap pins prog post) :
    Meets budget blank allowed heap pins prog post := by
  intro frame pool start
  have nodup := start.nodup
  rw [map_add] at nodup
  exact later (nodup_add.mp nodup).1 frame pool start

/-- With every page in memory the program runs to its end too. -/
lemma run (meets : Meets budget blank allowed heap pins prog post)
    (holds : store.Holds heap pins) : ∃ result after heap' pins',
      prog.run blank allowed store = .ok (result, after) ∧ after.Holds heap' pins' ∧
        post result heap' pins' := by
  rw [← add_zero heap] at holds
  obtain ⟨result, after, heap', pins', ran, holds', promised⟩ := meets 0 ⟨store, []⟩ ⟨holds, nofun⟩
  have agrees := (@PageProg.run_of_runIn _ _ _ budget.frames blank allowed prog ⟨store, []⟩).2
  rw [ran] at agrees
  refine ⟨result, after.store, heap', pins', agrees ?_, add_zero heap' ▸ holds'.toHolds, promised⟩
  intro starved
  obtain ⟨pid, _, isDelete⟩ := holds'.excused _ starved
  cases isDelete

end Meets

end DbEngine.Lib
