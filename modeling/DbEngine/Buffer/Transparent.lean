import DbEngine.Buffer.Bookkeeping

/-!
# The buffer pool is transparent

For callers that report their writes, the pool and the disk together hold what the flat
store holds: a cached page has the contents last written to it, and the disk has them too
unless the page is dirty or a write to it is still to be reported.
-/

namespace DbEngine.Buffer

open BufferPoolManager (cache create installed)
open BufferPoolManager DiskManager

open Lib (PageId)
open BufferPoolManager Function

variable {State Data : Type}

/-- What callers owe the pool: they fetch pages that are allocated and not deleted, write
to pages they have pinned, and report a write before the last pin is gone. -/
def FlatStore.Disciplined (flat : FlatStore Data) : Call Data → Prop
  | .fetchPage pid => flat.used pid = true ∧ flat.deleted pid = false
  | .write pid _ => 0 < flat.pins pid
  | .unpinPage pid isDirty =>
    flat.unreported pid = true → flat.pins pid = 1 → isDirty = true
  | _ => True

lemma FlatStore.Disciplined.allocated {flat : FlatStore Data}
    (disciplined : flat.Disciplined call) : flat.Allocated call := by
  cases call with
  | fetchPage pid => exact disciplined.1
  | _ => trivial

/-! ## One page -/

/-- Where the contents of a page are. -/
structure Holds (frame : Option (Frame Data)) (stored content : Data)
    (unreported deleted : Bool) : Prop where
  cached : ∀ {found}, frame = some found → found.data = content
  clean : ∀ {found}, frame = some found → found.isDirty = false → unreported = false →
    stored = content
  absent : frame = none → deleted = false → stored = content
  reported : unreported = true → ∃ found, frame = some found ∧ 0 < found.pinCount

namespace Holds

variable {frame : Frame Data} {stored content : Data} {unreported deleted : Bool}

lemma reported_of_absent
    (holds : Holds (none : Option (Frame Data)) stored content unreported deleted) :
    unreported = false := by
  cases known : unreported with
  | false => rfl
  | true =>
    obtain ⟨found, impossible, -⟩ := holds.reported known
    cases impossible

lemma fetch (frame : Frame Data)
    (holds : Holds (none : Option (Frame Data)) stored content unreported deleted)
    (kept : deleted = false) (fetched : frame.data = stored) :
    Holds (some frame) stored content unreported deleted where
  cached := by
    intro found same
    cases same
    exact fetched.trans (holds.absent rfl kept)
  clean := fun _ _ _ => holds.absent rfl kept
  absent := nofun
  reported known := by cases holds.reported_of_absent.symm.trans known

/-- A fresh page is all zero, on disk and in its frame. -/
lemma allocate (frame : Frame Data)
    (holds : Holds (none : Option (Frame Data)) stored content unreported deleted)
    (blank : frame.data = stored) : Holds (some frame) stored stored unreported false where
  cached := by
    intro found same
    cases same
    exact blank
  clean := fun _ _ _ => rfl
  absent := nofun
  reported known := by cases holds.reported_of_absent.symm.trans known

lemma deleteAbsent (holds : Holds (none : Option (Frame Data)) stored content unreported deleted) :
    Holds (none : Option (Frame Data)) stored content unreported true where
  cached := nofun
  clean := nofun
  absent := nofun
  reported known := by cases holds.reported_of_absent.symm.trans known

lemma write (_ : Holds (some frame) stored content unreported deleted)
    (pinned : 0 < frame.pinCount) (data : Data) :
    Holds (some { frame with data }) stored data true deleted where
  cached := by
    intro found same
    cases same
    rfl
  clean := nofun
  absent := nofun
  reported := fun _ => ⟨_, rfl, pinned⟩

section

variable (holds : Holds (some frame) stored content unreported deleted)
include holds

lemma data_eq : frame.data = content :=
  holds.cached rfl

lemma reported_of_unpinned (unpinned : frame.pinCount = 0) : unreported = false := by
  cases known : unreported with
  | false => rfl
  | true =>
    obtain ⟨found, same, pinned⟩ := holds.reported known
    cases same
    exact absurd unpinned pinned.ne'

/-- A victim is clean, or it was just written back. -/
lemma evict (unpinned : frame.pinCount = 0) :
    Holds none (if frame.isDirty then frame.data else stored) content unreported deleted where
  cached := nofun
  clean := nofun
  absent := by
    intro _ _
    split
    · exact holds.data_eq
    next clean =>
      exact holds.clean rfl (Bool.eq_false_of_not_eq_true clean)
        (holds.reported_of_unpinned unpinned)
  reported known := by cases (holds.reported_of_unpinned unpinned).symm.trans known

lemma pin : Holds (some { frame with pinCount := frame.pinCount + 1 }) stored content unreported
      deleted where
  cached := by
    intro found same
    cases same
    exact holds.data_eq
  clean := by
    intro found same clean
    cases same
    have clean : frame.isDirty = false := clean
    exact holds.clean rfl clean
  absent := nofun
  reported := by
    intro known
    obtain ⟨found, same, pinned⟩ := holds.reported known
    cases same
    exact ⟨_, rfl, Int.lt_add_one_of_le pinned.le⟩

/-- The dirty flag takes over from the flag of the caller. -/
lemma unpin (pinned : 0 < frame.pinCount) (duty : unreported = true → frame.pinCount = 1 → isDirty = true) :
    Holds (some { frame with
        isDirty := frame.isDirty || isDirty
        pinCount := frame.pinCount - 1 })
      stored content (unreported && !isDirty) deleted where
  cached := by
    intro found same
    cases same
    exact holds.data_eq
  clean := by
    intro found same clean told
    cases same
    obtain ⟨clean, notDirty⟩ := Bool.or_eq_false_iff.mp clean
    rw [notDirty] at told
    exact holds.clean rfl clean (by simpa using told)
  absent := nofun
  reported := by
    intro known
    simp only [Bool.and_eq_true, Bool.not_eq_true'] at known
    refine ⟨_, rfl, ?_⟩
    have several : frame.pinCount ≠ 1 := by
      intro last
      rw [duty known.1 last] at known
      cases known.2
    exact Int.sub_pos_of_lt (lt_of_le_of_ne pinned several.symm)

lemma flush : Holds (some { frame with isDirty := false }) frame.data content unreported deleted where
  cached := by
    intro found same
    cases same
    exact holds.data_eq
  clean := fun _ _ _ => holds.data_eq
  absent := nofun
  reported := by
    intro known
    obtain ⟨found, same, pinned⟩ := holds.reported known
    cases same
    exact ⟨_, rfl, pinned⟩

lemma delete (unpinned : frame.pinCount = 0) :
    Holds (none : Option (Frame Data)) stored content unreported true where
  cached := nofun
  clean := nofun
  absent := nofun
  reported known := by cases (holds.reported_of_unpinned unpinned).symm.trans known

end

end Holds

/-! ## All pages -/

variable {disk : DiskManager Data}

lemma DiskManager.store_pages (ne : query ≠ pid) :
    (disk.store pid data).pages query = disk.pages query :=
  update_of_ne ne _ _

/-- Whatever a call does to one page, the others hold what they held. -/
lemma Holds.update {cache : PageId → Option (Frame Data)} {stored content : PageId → Data}
    (page : PageId)
    (holds : ∀ pid, Holds (cache pid) (stored pid) (content pid) (unreported pid) (deleted pid))
    (here : Holds frame stored' content' unreported' deleted') (pid : PageId) :
    Holds (update cache page frame pid) (update stored page stored' pid)
      (update content page content' pid) (update unreported page unreported' pid)
      (update deleted page deleted' pid) := by
  by_cases same : pid = page
  · subst same
    simpa using here
  · simpa [same] using holds pid

variable [Zero Data]

/-- The pool and the disk hold what the flat store holds. -/
structure Contents (pool : BufferPoolManager State Data) (flat : FlatStore Data) : Prop where
  holds : ∀ pid, Holds (pool.cache pid) (pool.disk.contents pid) (flat.content pid)
    (flat.unreported pid) (flat.deleted pid)
  fresh : ∀ {pid}, pool.disk.nextPageId ≤ pid → pool.disk.pages pid = none

@[simp] lemma DiskManager.contents_allocated (disk : DiskManager Data) :
    disk.allocated.contents = disk.contents :=
  rfl

@[simp] lemma DiskManager.contents_transferred (disk : DiskManager Data) :
    disk.transferred.contents = disk.contents :=
  rfl

lemma DiskManager.contents_store (disk : DiskManager Data) (pid : PageId) (data : Data) :
    (disk.store pid data).contents = update disk.contents pid data := by
  funext query
  by_cases same : query = pid
  · subst same
    simp [DiskManager.contents, DiskManager.store]
  · simp [DiskManager.contents, DiskManager.store, same]

variable {replacer : Replacer State} {numFrames : Nat} {lawful : replacer.Lawful numFrames}
  {pool : BufferPoolManager State Data} {flat : FlatStore Data} {pid : PageId}
  {frameId : FrameId}

lemma Contents.cached (contents : Contents pool flat)
    (found : pool.pageTable.lookup pid = some frameId) :
    Holds (some (pool.frames frameId)) (pool.disk.contents pid) (flat.content pid)
      (flat.unreported pid) (flat.deleted pid) := by
  have holds := contents.holds pid
  rw [cache, cachedFrame_of_lookup found] at holds
  exact holds

lemma Contents.uncached (contents : Contents pool flat)
    (absent : pool.pageTable.lookup pid = none) :
    Holds (none : Option (Frame Data)) (pool.disk.contents pid) (flat.content pid)
      (flat.unreported pid) (flat.deleted pid) := by
  have holds := contents.holds pid
  rw [cache, cachedFrame, absent] at holds
  exact holds

lemma Contents.missed (contents : Contents pool flat) :
    Contents { pool with numMisses := pool.numMisses + 1 } flat := { contents with }

lemma Contents.create (opened : ∀ {pid}, disk.nextPageId ≤ pid → disk.pages pid = none) :
    Contents (create numFrames disk state) (.ofDisk disk) where
  holds := fun _ => ⟨nofun, nofun, fun _ _ => rfl, nofun⟩
  fresh := opened

section

variable (contents : Contents pool flat) (inv : PoolInv lawful none pool)
include contents inv

lemma Contents.acquired {acquired : BufferPoolManager State Data}
    (acquire : Acquired lawful pool frameId acquired) : Contents acquired flat := by
  cases acquire with
  | free => exact { contents with }
  | @evicted pid _ state _ found unpinned =>
    have stored : (pool.dropVictim pid frameId state).disk.contents = update pool.disk.contents pid
          (if (pool.frames frameId).isDirty then (pool.frames frameId).data
            else pool.disk.contents pid) := by
      rw [dropVictim]
      split
      · exact contents_store ..
      · exact (update_eq_self ..).symm
    constructor
    · rw [inv.cache_dropVictim found, stored]
      simpa using Holds.update pid contents.holds ((contents.cached found).evict unpinned)
    · intro query beyond
      rw [dropVictim_nextPageId] at beyond
      have ne : query ≠ pid := ((inv.allocated found).trans_le beyond).ne'
      rw [dropVictim]
      split
      · exact (store_pages ne).trans (contents.fresh beyond)
      · exact contents.fresh beyond

lemma Contents.flushFrame (found : pool.pageTable.lookup pid = some frameId) :
    Contents (pool.flushFrame pid frameId) flat := by
  constructor
  · rw [inv.cache_flushFrame found]
    have stored : (pool.flushFrame pid frameId).disk.contents =
        update pool.disk.contents pid (pool.frames frameId).data :=
      contents_store ..
    rw [stored]
    simpa using Holds.update pid contents.holds (contents.cached found).flush
  · intro query beyond
    have ne : query ≠ pid := ((inv.allocated found).trans_le beyond).ne'
    exact (store_pages ne).trans (contents.fresh beyond)

lemma Contents.effect {answer : Answer Data} (agrees : Agrees pool flat)
    (disciplined : flat.Disciplined call) (effect : Effect lawful pool call answer pool') :
    Contents pool' (flat.after call answer) := by
  cases effect with
  | @newPage _ acquired _ acquire pinned =>
    have inv' := inv.acquired acquire
    have contents' := contents.acquired inv acquire
    have absent := contents'.uncached inv'.lookup_nextPageId
    have zero : acquired.disk.contents acquired.disk.nextPageId = 0 := by
      rw [DiskManager.contents, contents'.fresh le_rfl]
      rfl
    rw [zero] at absent
    constructor
    · rw [inv'.cache_installed]
      let frame : Frame Data :=
        { data := 0, pageId := some acquired.disk.nextPageId, pinCount := 1 }
      have here := Holds.update acquired.disk.nextPageId contents'.holds (absent.allocate frame rfl)
      have same : update acquired.disk.contents acquired.disk.nextPageId 0 =
          acquired.disk.contents :=
        update_eq_self_iff.mpr zero.symm
      simpa [FlatStore.after, installed, frame, same] using here
    · intro query beyond
      exact contents'.fresh (Nat.le_of_succ_le beyond)
  | newPageNone | unpinRefused | flushAbsent | deletePinned => exact contents
  | @fetchHit pid _ _ found pinned =>
    refine ⟨?_, contents.fresh⟩
    rw [inv.cache_changed found]
    simpa [FlatStore.after, setFrame] using
      Holds.update pid contents.holds (contents.cached found).pin
  | @fetchMiss pid _ acquired _ absent acquire pinned =>
    have inv₀ := inv.missed
    have contents₀ := contents.missed
    have contents' := contents₀.acquired inv₀ acquire
    have absent' := contents'.uncached (acquire.lookup_none absent)
    refine ⟨?_, contents'.fresh⟩
    rw [(inv₀.acquired acquire).cache_installed]
    let frame : Frame Data :=
      { data := acquired.disk.contents pid, pageId := some pid, pinCount := 1 }
    have here := Holds.update pid contents'.holds (absent'.fetch frame disciplined.2 rfl)
    simpa [FlatStore.after, installed, frame] using here
  | fetchNone => exact { contents with }
  | @write pid data =>
    rw [writeInPlace]
    have pinned : 0 < pinsIn pool.cache pid := by
      rw [← agrees.pins]
      exact disciplined
    split
    next absent =>
      rw [pinsIn_of_absent absent] at pinned
      exact absurd pinned (lt_irrefl _)
    next frameId found =>
      rw [pinsIn_of_lookup found] at pinned
      refine ⟨?_, contents.fresh⟩
      rw [inv.cache_changed found]
      simpa [FlatStore.after, setFrame] using
        Holds.update pid contents.holds ((contents.cached found).write pinned data)
  | @unpin pid isDirty _ _ found pinned counted =>
    refine ⟨?_, contents.fresh⟩
    rw [inv.cache_changed found]
    rw [FlatStore.Disciplined, agrees.pins, pinsIn_of_lookup found] at disciplined
    simpa [FlatStore.after, setFrame] using
      Holds.update pid contents.holds ((contents.cached found).unpin pinned disciplined)
  | flush found => exact contents.flushFrame inv found
  | flushAll =>
    apply foldl_flushIfDirty (motive := (Contents · flat)) _ inv (fun _ mem => mem) contents
    intro pool entry inv mem contents
    rw [flushIfDirty]
    split
    · exact contents.flushFrame inv (AList.mem_lookup_iff.mpr mem)
    · exact contents
  | @deleteAbsent pid absent =>
    refine ⟨?_, contents.fresh⟩
    have here := Holds.update pid contents.holds (contents.uncached absent).deleteAbsent
    have same : update pool.cache pid none = pool.cache := by
      apply update_eq_self_iff.mpr
      rw [cache, cachedFrame, absent]
      rfl
    rw [same] at here
    simpa [FlatStore.after] using here
  | @delete pid _ _ found unpinned removed =>
    refine ⟨?_, contents.fresh⟩
    rw [inv.cache_deleted found]
    simpa [FlatStore.after, setFrame] using
      Holds.update pid contents.holds ((contents.cached found).delete unpinned)

end

/-! ## Answers -/

/-- What the flat store lets a caller see: a fresh page of zeros from `NewPage`, and what
was last written from `FetchPage`. -/
def FlatStore.Shows (flat : FlatStore Data) : Call Data → Answer Data → Prop
  | .newPage, .page pid data => flat.used pid = false ∧ data = 0
  | .fetchPage pid, .page shown data => shown = pid ∧ data = flat.content pid
  | _, _ => True

lemma Contents.shows (contents : Contents pool flat) (inv : PoolInv lawful none pool)
    (agrees : Agrees pool flat) (disciplined : flat.Disciplined call)
    (effect : Effect lawful pool call answer pool') : flat.Shows call answer := by
  cases effect with
  | newPage acquire =>
    refine ⟨?_, rfl⟩
    rw [agrees.used, acquire.nextPageId_eq]
    exact decide_eq_false (lt_irrefl _)
  | fetchHit found => exact ⟨rfl, (contents.cached found).data_eq⟩
  | fetchMiss absent acquire =>
    have inv₀ := inv.missed
    have contents₀ := contents.missed
    have holds := (contents₀.acquired inv₀ acquire).uncached (acquire.lookup_none absent)
    exact ⟨rfl, holds.absent rfl disciplined.2⟩
  | _ => trivial

omit [Zero Data] in
lemma flushIfDirty_isDirty (entry : Sigma fun _ : PageId => FrameId) :
    ((pool.flushIfDirty entry).frames entry.2).isDirty = false := by
  rw [flushIfDirty]
  split
  · simp [flushFrame, setFrame]
  next clean => exact Bool.eq_false_of_not_eq_true clean

omit [Zero Data] in
lemma flushIfDirty_clean (entry : Sigma fun _ : PageId => FrameId)
    (clean : (pool.frames frameId).isDirty = false) :
    ((pool.flushIfDirty entry).frames frameId).isDirty = false := by
  by_cases same : frameId = entry.2
  · rw [same]
    exact flushIfDirty_isDirty entry
  · rw [flushIfDirty]
    split
    · simpa [flushFrame, setFrame, same] using clean
    · exact clean

omit [Zero Data] in
/-- `FlushAllPages` leaves the frames it visits clean. -/
lemma foldl_flushIfDirty_isDirty (entries : List (Sigma fun _ : PageId => FrameId))
    (visited : (pool.frames frameId).isDirty = false ∨ ∃ entry ∈ entries, entry.2 = frameId) :
    ((entries.foldl flushIfDirty pool).frames frameId).isDirty = false := by
  induction entries generalizing pool with
  | nil =>
    rcases visited with clean | ⟨entry, impossible, -⟩
    · exact clean
    · cases impossible
  | cons entry rest ih =>
    apply ih
    rcases visited with clean | ⟨entry', mem, same⟩
    · exact .inl (flushIfDirty_clean entry clean)
    · rcases mem_cons.mp mem with head | mem
      · subst head same
        exact .inl (flushIfDirty_isDirty entry')
      · exact .inr ⟨entry', mem, same⟩

omit [Zero Data] in
lemma foldl_flushIfDirty_pageTable (entries : List (Sigma fun _ : PageId => FrameId)) :
    (entries.foldl flushIfDirty pool).pageTable = pool.pageTable := by
  induction entries generalizing pool with
  | nil => rfl
  | cons entry rest ih => exact ih.trans (flushIfDirty_pageTable entry)

/-- With nothing pinned, `FlushAllPages` brings the disk up to date. -/
lemma Contents.flushed (contents : Contents pool flat) (inv : PoolInv lawful none pool)
    (agrees : Agrees pool flat) (effect : Effect lawful pool .flushAllPages answer pool')
    (unpinned : ∀ pid, flat.pins pid = 0) (kept : flat.deleted pid = false) :
    pool'.disk.contents pid = flat.content pid := by
  have disciplined : flat.Disciplined .flushAllPages := trivial
  have contents' := contents.effect inv agrees disciplined effect
  cases effect
  have holds := contents'.holds pid
  have told : flat.unreported pid = false := by
    cases known : flat.unreported pid with
    | false => rfl
    | true =>
      obtain ⟨found, cached, pinned⟩ := (contents.holds pid).reported known
      have none := unpinned pid
      rw [agrees.pins, pinsIn, cached] at none
      exact absurd none pinned.ne'
  cases found : pool.pageTable.lookup pid with
  | none =>
    refine holds.absent ?_ kept
    rw [cache, cachedFrame, foldl_flushIfDirty_pageTable, found]
    rfl
  | some frameId =>
    have found' : (pool.pageTable.entries.foldl
        flushIfDirty pool).pageTable.lookup pid = some frameId := by
      rw [foldl_flushIfDirty_pageTable, found]
    refine holds.clean (cachedFrame_of_lookup found') ?_ told
    apply foldl_flushIfDirty_isDirty
    exact .inr ⟨⟨pid, frameId⟩, AList.mem_lookup_iff.mp found, rfl⟩

/-- The pool cannot be told from the flat store by disciplined callers. -/
def Transparent (replacer : Replacer State) (start : BufferPoolManager State Data) : Prop :=
  ∀ pool flat, Reaches replacer FlatStore.Disciplined start pool flat →
    ∀ call, flat.Disciplined call →
      ∃ answer pool', perform replacer call pool = .ok answer pool' ∧ flat.Shows call answer ∧
        (call = .flushAllPages → (∀ pid, flat.pins pid = 0) →
          ∀ pid, flat.deleted pid = false → pool'.disk.contents pid = flat.content pid)

lemma Reaches.contents {start : BufferPoolManager State Data}
    (reached : Reaches replacer FlatStore.Disciplined start pool flat)
    (inv : PoolInv lawful none start) (agrees : Agrees start (.ofDisk start.disk))
    (contents : Contents start (.ofDisk start.disk)) : Contents pool flat := by
  induction reached with
  | start => exact contents
  | @call pool flat answer pool' call before may ran ih =>
    have kept := before.inv FlatStore.Disciplined.allocated inv agrees
    obtain ⟨answer', after, ran', effect⟩ := perform_effect kept.1 call
    rw [ran] at ran'
    cases ran'
    exact ih.effect kept.1 kept.2 may effect

lemma transparent_of_lawful (lawful : replacer.Lawful numFrames) {state : State}
    (noFaults : ∀ n, disk.fails n = false)
    (opened : ∀ {pid}, disk.nextPageId ≤ pid → disk.pages pid = none) (valid : lawful.Valid state)
    (untracked : lawful.tracked state = fun _ => none) :
    Transparent replacer (create numFrames disk state) := by
  intro pool flat reached call disciplined
  have start := PoolInv.create noFaults valid untracked
  have kept := reached.inv FlatStore.Disciplined.allocated start .create
  have contents := reached.contents start .create (.create opened)
  obtain ⟨answer, pool', ran, effect⟩ := perform_effect kept.1 call
  refine ⟨answer, pool', ran, contents.shows kept.1 kept.2 disciplined effect, ?_⟩
  intro flush unpinned pid present
  subst flush
  exact contents.flushed kept.1 kept.2 effect unpinned present

/-- The pool is transparent with either replacer, over any file that was just opened. -/
theorem pool_transparent {poolSize k : Nat} {disk : DiskManager Data} (k_pos : 0 < k)
    (noFaults : ∀ n, disk.fails n = false)
    (opened : ∀ pid, disk.nextPageId ≤ pid → disk.pages pid = none) :
    Transparent LRUKReplacer.replacer
        (BufferPoolManager.create poolSize disk { numFrames := poolSize, k }) ∧
      Transparent LRUReplacer.replacer
        (BufferPoolManager.create poolSize disk { numFrames := poolSize }) := by
  constructor
  · exact transparent_of_lawful (LRUKReplacer.lawful poolSize) noFaults (opened _)
      ⟨rfl, k_pos, nofun, rfl⟩ rfl
  · exact transparent_of_lawful (LRUReplacer.lawful poolSize) noFaults (opened _)
      ⟨rfl, nodup_nil, by simp, rfl⟩ rfl

theorem pool_transparent_smallPool : Transparent LRUKReplacer.replacer (smallPool 2) :=
  (pool_transparent (by decide) (fun _ => rfl) (fun _ _ => rfl)).1

/-- A page fetched and written before it is allocated: `NewPage` hands out its id a second
time, and what was written is gone. -/
theorem earlyFetch_loses_write :
    (match performAll LRUKReplacer.replacer
        [.fetchPage 0, .write 0 7, .unpinPage 0 true, .newPage, .fetchPage 0] (smallPool 2) with
      | .ok answers _ => some answers
      | .error _ _ => none) =
        some [.page 0 0, .done, .flag true, .page 0 0, .page 0 0] := by
  decide +kernel

end DbEngine.Buffer
