import DbEngine.Buffer.Invariant

/-!
# Pins

The pool next to a flat page store without frames, which keeps for each page what callers
last wrote, how often it is pinned and whether a write is still to be reported.  This
module shows that the pins agree, and states the bookkeeping of the pool over LRU-K.
-/

namespace DbEngine.Buffer

open Lib (PageId)
open BufferPoolManager Function

variable {State Data : Type}

/-! ## The flat page store -/

/-- What callers know of the pages. -/
structure FlatStore (Data : Type) where
  content : PageId → Data
  /-- Successful fetches less successful unpins. -/
  pins : PageId → Int := fun _ => 0
  /-- Written since the last `UnpinPage(…, true)`. -/
  unreported : PageId → Bool := fun _ => false
  deleted : PageId → Bool := fun _ => false
  /-- Allocated, by `NewPage` or before the file was opened. -/
  used : PageId → Bool

namespace FlatStore

/-- The pages of a file just opened. -/
def ofDisk [Zero Data] (disk : DiskManager Data) : FlatStore Data where
  content := disk.contents
  used := fun pid => decide (pid < disk.nextPageId)

/-- The pages after a call and its answer. -/
def after [Zero Data] (flat : FlatStore Data) : Call Data → Answer Data → FlatStore Data
  | .newPage, .page pid _ =>
    { flat with
      content := update flat.content pid 0
      pins := update flat.pins pid (flat.pins pid + 1)
      deleted := update flat.deleted pid false
      used := update flat.used pid true }
  | .fetchPage pid, .page _ _ =>
    { flat with pins := update flat.pins pid (flat.pins pid + 1) }
  | .write pid data, _ =>
    { flat with
      content := update flat.content pid data
      unreported := update flat.unreported pid true }
  | .unpinPage pid isDirty, .flag true =>
    { flat with
      pins := update flat.pins pid (flat.pins pid - 1)
      unreported := update flat.unreported pid (flat.unreported pid && !isDirty) }
  | .deletePage pid, .flag true =>
    { flat with deleted := update flat.deleted pid true }
  | _, _ => flat

/-- Pages are fetched only once they are allocated. -/
def Allocated (flat : FlatStore Data) : Call Data → Prop
  | .fetchPage pid => flat.used pid = true
  | _ => True

end FlatStore

/-- The states a pool reaches by calls that are permitted, with the flat store beside it. -/
inductive Reaches [Zero Data] (replacer : Replacer State)
    (permitted : FlatStore Data → Call Data → Prop) (start : BufferPoolManager State Data) :
    BufferPoolManager State Data → FlatStore Data → Prop where
  | start : Reaches replacer permitted start start (.ofDisk start.disk)
  | call (call : Call Data) (before : Reaches replacer permitted start pool flat)
      (may : permitted flat call) (ran : perform replacer call pool = .ok answer pool') :
      Reaches replacer permitted start pool' (flat.after call answer)

/-! ## The cached frames -/

/-- The frame of a cached page. -/
def cachedFrame (pageTable : AList fun _ : PageId => FrameId) (frames : FrameId → Frame Data)
    (pid : PageId) : Option (Frame Data) :=
  (pageTable.lookup pid).map frames

section

variable {pageTable : AList fun _ : PageId => FrameId} {frames : FrameId → Frame Data}
  {pid : PageId} {frameId : FrameId}

lemma cachedFrame_of_lookup (found : pageTable.lookup pid = some frameId) :
    cachedFrame pageTable frames pid = some (frames frameId) := by
  rw [cachedFrame, found]
  rfl

lemma map_update_of_unmapped (frame : Frame Data) (unmapped : found ≠ some frameId) :
    found.map (update frames frameId frame) = found.map frames := by
  cases found with
  | none => rfl
  | some other =>
    have ne : other ≠ frameId := fun same => unmapped (congrArg some same)
    simp [ne]

lemma cachedFrame_update (frame : Frame Data)
    (only : ∀ pid', pageTable.lookup pid' = some frameId → pid' = pid)
    (found : pageTable.lookup pid = some frameId) :
    cachedFrame pageTable (update frames frameId frame) =
      update (cachedFrame pageTable frames) pid (some frame) := by
  funext query
  by_cases same : query = pid
  · subst same
    simp [cachedFrame_of_lookup found]
  · rw [update_of_ne same]
    exact map_update_of_unmapped frame fun found' => same (only query found')

lemma cachedFrame_insert (frame : Frame Data)
    (unmapped : ∀ pid', pageTable.lookup pid' ≠ some frameId) :
    cachedFrame (pageTable.insert pid frameId) (update frames frameId frame) =
      update (cachedFrame pageTable frames) pid (some frame) := by
  funext query
  by_cases same : query = pid
  · subst same
    simp [cachedFrame]
  · rw [update_of_ne same, cachedFrame, AList.lookup_insert_ne same]
    exact map_update_of_unmapped frame (unmapped query)

lemma cachedFrame_erase (frame : Frame Data)
    (only : ∀ pid', pageTable.lookup pid' = some frameId → pid' = pid) :
    cachedFrame (pageTable.erase pid) (update frames frameId frame) =
      update (cachedFrame pageTable frames) pid none := by
  funext query
  by_cases same : query = pid
  · subst same
    simp [cachedFrame]
  · rw [update_of_ne same, cachedFrame, AList.lookup_erase_ne same]
    exact map_update_of_unmapped frame fun found => same (only query found)

end

/-- The pages in the pool. -/
def BufferPoolManager.cache (pool : BufferPoolManager State Data) :
    PageId → Option (Frame Data) :=
  cachedFrame pool.pageTable pool.frames

section

variable {pool : BufferPoolManager State Data} {pid : PageId} {frameId : FrameId}

/-- The pin count of a page; a page that is not in the pool is not pinned. -/
def pinsIn (cache : PageId → Option (Frame Data)) (pid : PageId) : Int :=
  ((cache pid).map Frame.pinCount).getD 0

lemma pinsIn_update (cache : PageId → Option (Frame Data)) (frame : Option (Frame Data)) :
    pinsIn (update cache pid frame) =
      update (pinsIn cache) pid ((frame.map Frame.pinCount).getD 0) := by
  funext query
  by_cases same : query = pid
  · subst same
    simp [pinsIn]
  · simp [pinsIn, same]

lemma pinsIn_of_lookup (found : pool.pageTable.lookup pid = some frameId) :
    pinsIn pool.cache pid = (pool.frames frameId).pinCount := by
  rw [pinsIn, BufferPoolManager.cache, cachedFrame_of_lookup found]
  rfl

lemma pinsIn_of_absent (absent : pool.pageTable.lookup pid = none) : pinsIn pool.cache pid = 0 := by
  rw [pinsIn, BufferPoolManager.cache, cachedFrame, absent]
  rfl

/-- A change that leaves the pins of the one page as they are. -/
lemma pinsIn_kept (found : pool.pageTable.lookup pid = some frameId)
    (same : frame.pinCount = (pool.frames frameId).pinCount) :
    pinsIn (update pool.cache pid (some frame)) = pinsIn pool.cache := by
  rw [pinsIn_update]
  apply update_eq_self_iff.mpr
  rw [pinsIn_of_lookup found]
  exact same

end

variable [Zero Data] {replacer : Replacer State} {numFrames : Nat}
  {lawful : replacer.Lawful numFrames} {pool : BufferPoolManager State Data}
  {pid : PageId} {frameId : FrameId} {frame : Frame Data} {state : State}
  {disk : DiskManager Data}

section

variable (inv : PoolInv lawful none pool) (found : pool.pageTable.lookup pid = some frameId)
include inv found

lemma PoolInv.cache_changed {numHits : Nat} :
    ({ pool.setFrame frameId frame with replacer := state, disk, numHits }).cache =
      update pool.cache pid (some frame) :=
  cachedFrame_update frame (fun _ found' => inv.inj found' found) found

lemma PoolInv.cache_dropVictim :
    (pool.dropVictim pid frameId state).cache = update pool.cache pid none :=
  cachedFrame_erase _ fun _ found' => inv.inj found' found

lemma PoolInv.cache_deleted {freeList : List FrameId} :
    ({ pool.setFrame frameId Frame.blank with
        replacer := state, pageTable := pool.pageTable.erase pid, freeList }).cache =
      update pool.cache pid none :=
  cachedFrame_erase _ fun _ found' => inv.inj found' found

lemma PoolInv.cache_flushFrame : (pool.flushFrame pid frameId).cache =
      update pool.cache pid (some { pool.frames frameId with isDirty := false }) :=
  inv.cache_changed found

lemma pinsIn_flushFrame :
    pinsIn (pool.flushFrame pid frameId).cache = pinsIn pool.cache := by
  rw [inv.cache_flushFrame found]
  apply pinsIn_kept found
  rfl

end

lemma PoolInv.cache_installed (inv : PoolInv lawful (some frameId) pool) :
    (pool.installed disk frameId pid data state).cache =
      update pool.cache pid (some { data, pageId := some pid, pinCount := 1 }) :=
  cachedFrame_insert _ (inv.free (.inr rfl)).2.2.2

/-! ## The pins agree -/

/-- The flat store counts the pins and the pages as the pool does. -/
structure Agrees (pool : BufferPoolManager State Data) (flat : FlatStore Data) : Prop where
  pins : flat.pins = pinsIn pool.cache
  used : flat.used = fun pid => decide (pid < pool.disk.nextPageId)

lemma Agrees.create {disk : DiskManager Data} {state : State} :
    Agrees (BufferPoolManager.create numFrames disk state) (.ofDisk disk) where
  pins := rfl
  used := rfl

variable {acquired pool' : BufferPoolManager State Data} {flat : FlatStore Data}
  {call : Call Data} {answer : Answer Data}

lemma pinsIn_acquired (inv : PoolInv lawful none pool)
    (acquire : Acquired lawful pool frameId acquired) :
    pinsIn acquired.cache = pinsIn pool.cache := by
  cases acquire with
  | free => rfl
  | evicted _ found unpinned =>
    rw [inv.cache_dropVictim found, pinsIn_update]
    -- The victim had no pins.
    apply update_eq_self_iff.mpr
    rw [pinsIn_of_lookup found]
    exact unpinned.symm

lemma pinsIn_flushIfDirty (inv : PoolInv lawful none pool) (mem : entry ∈ pool.pageTable.entries) :
    pinsIn (pool.flushIfDirty entry).cache = pinsIn pool.cache := by
  rw [BufferPoolManager.flushIfDirty]
  split
  · exact pinsIn_flushFrame inv (AList.mem_lookup_iff.mpr mem)
  · rfl

omit [Zero Data] in
lemma flushIfDirty_nextPageId (entry : Sigma fun _ : PageId => FrameId) :
    (pool.flushIfDirty entry).disk.nextPageId = pool.disk.nextPageId := by
  rw [BufferPoolManager.flushIfDirty]
  split <;> rfl

lemma Agrees.effect (agrees : Agrees pool flat) (inv : PoolInv lawful none pool)
    (effect : Effect lawful pool call answer pool') : Agrees pool' (flat.after call answer) := by
  cases effect with
  | newPage acquire pinned =>
    have inv' := inv.acquired acquire
    have pins : pinsIn _ = flat.pins := (pinsIn_acquired inv acquire).trans agrees.pins.symm
    constructor
    · rw [inv'.cache_installed, pinsIn_update, pins]
      have zero := pinsIn_of_absent inv'.lookup_nextPageId
      rw [pins] at zero
      simp [FlatStore.after, zero]
    · funext query
      simp only [FlatStore.after, agrees.used, BufferPoolManager.installed,
        DiskManager.allocated, acquire.nextPageId_eq]
      by_cases same : query = pool.disk.nextPageId
      · simp [same]
      · rw [update_of_ne same]
        apply decide_eq_decide.mpr
        exact ⟨Nat.lt_succ_of_lt, fun older => lt_of_le_of_ne (Nat.le_of_lt_succ older) same⟩
  | newPageNone | unpinRefused | flushAbsent | deletePinned => exact agrees
  | fetchHit found | unpin found =>
    refine ⟨?_, agrees.used⟩
    rw [inv.cache_changed found, pinsIn_update, ← agrees.pins]
    simp [FlatStore.after, agrees.pins, pinsIn_of_lookup found]
  | fetchMiss absent acquire pinned =>
    have inv₀ := inv.missed
    have inv' := inv₀.acquired acquire
    have pins : pinsIn _ = flat.pins := (pinsIn_acquired inv₀ acquire).trans agrees.pins.symm
    constructor
    · rw [inv'.cache_installed, pinsIn_update, pins]
      have zero := pinsIn_of_absent absent
      rw [← agrees.pins] at zero
      simp [FlatStore.after, zero]
    · rw [show (flat.after _ _).used = flat.used from rfl, agrees.used]
      funext query
      simp only [BufferPoolManager.installed, DiskManager.transferred, acquire.nextPageId_eq]
  | fetchNone | deleteAbsent => exact { agrees with }
  | @write pid data =>
    rw [writeInPlace]
    split
    · exact { agrees with }
    next frameId found =>
      refine ⟨agrees.pins.trans ?_, agrees.used⟩
      rw [inv.cache_changed found]
      apply Eq.symm
      apply pinsIn_kept found
      rfl
  | flush found =>
    exact ⟨agrees.pins.trans (pinsIn_flushFrame inv found).symm, agrees.used⟩
  | flushAll =>
    apply foldl_flushIfDirty (motive := (Agrees · flat)) _ inv (fun _ mem => mem) agrees
    intro pool entry inv mem agrees
    constructor
    · exact agrees.pins.trans (pinsIn_flushIfDirty inv mem).symm
    · rw [flushIfDirty_nextPageId]
      exact agrees.used
  | delete found unpinned removed =>
    refine ⟨agrees.pins.trans ?_, agrees.used⟩
    rw [inv.cache_deleted found, pinsIn_update]
    symm
    apply update_eq_self_iff.mpr
    rw [pinsIn_of_lookup found]
    exact unpinned.symm

/-! ## Runs -/

/-- Along a run both the bookkeeping and the pins are kept. -/
lemma Reaches.inv {start : BufferPoolManager State Data}
    {permitted : FlatStore Data → Call Data → Prop}
    (reached : Reaches replacer permitted start pool flat)
    (allocated : ∀ {flat call}, permitted flat call → flat.Allocated call)
    (inv : PoolInv lawful none start) (agrees : Agrees start (.ofDisk start.disk)) :
    PoolInv lawful none pool ∧ Agrees pool flat := by
  induction reached with
  | start => exact ⟨inv, agrees⟩
  | @call pool flat answer pool' call before may ran ih =>
    obtain ⟨answer', after, ran', effect⟩ := perform_effect ih.1 call
    rw [ran] at ran'
    cases ran'
    refine ⟨ih.1.effect ?_ effect, ih.2.effect ih.1 effect⟩
    intro pid fetch
    have used := allocated may
    rw [fetch, FlatStore.Allocated, ih.2.used] at used
    exact of_decide_eq_true used

/-! ## What follows for callers -/

lemma Acquired.not_exhausted (inv : PoolInv lawful none pool)
    (acquire : Acquired lawful pool frameId acquired) : ¬ Exhausted pool := by
  intro full
  cases acquire with
  | free head =>
    rw [full.1] at head
    cases head
  | evicted _ found unpinned =>
    have inPool := (inv.cached found).1
    rw [← inv.poolSize_eq] at inPool
    exact (full.2 _ inPool).ne' unpinned

/-- Whether a call has to find a frame. -/
def NeedsFrame (pool : BufferPoolManager State Data) : Call Data → Prop
  | .newPage => True
  | .fetchPage pid => pool.pageTable.lookup pid = none
  | _ => False

lemma Effect.noFrame_iff (inv : PoolInv lawful none pool)
    (effect : Effect lawful pool call answer pool') :
    answer = .noFrame ↔ NeedsFrame pool call ∧ Exhausted pool := by
  cases effect with
  | newPage acquire => simp [acquire.not_exhausted inv]
  | newPageNone full => simp [NeedsFrame, full]
  | fetchHit found => simp [NeedsFrame, found]
  | fetchMiss absent acquire =>
    have inv₀ := inv.missed
    have frames := acquire.not_exhausted inv₀
    have frames : ¬ Exhausted pool := frames
    simp [frames]
  | fetchNone absent full => simp [NeedsFrame, absent, full]
  | _ => simp [NeedsFrame]

lemma Acquired.lookup_pinned {taken : FrameId} (acquire : Acquired lawful pool taken acquired)
    (found : pool.pageTable.lookup pid = some frameId)
    (pinned : 0 < (pool.frames frameId).pinCount) :
    acquired.pageTable.lookup pid = some frameId := by
  cases acquire with
  | free => exact found
  | @evicted victim _ _ _ found' unpinned =>
    have ne : pid ≠ victim := by
      intro same
      rw [same, found'] at found
      cases found
      exact pinned.ne' unpinned
    exact (AList.lookup_erase_ne ne).trans found

/-- A pinned page keeps its frame. -/
lemma Effect.lookup_pinned (inv : PoolInv lawful none pool)
    (effect : Effect lawful pool call answer pool')
    (found : pool.pageTable.lookup pid = some frameId)
    (pinned : 0 < (pool.frames frameId).pinCount) : pool'.pageTable.lookup pid = some frameId := by
  cases effect with
  | @newPage _ acquired _ acquire =>
    have kept := acquire.lookup_pinned found pinned
    have ne : pid ≠ acquired.disk.nextPageId := by
      intro same
      rw [same, (inv.acquired acquire).lookup_nextPageId] at kept
      cases kept
    exact (AList.lookup_insert_ne ne).trans kept
  | @fetchMiss fetched _ _ _ absent acquire =>
    have ne : pid ≠ fetched := by
      intro same
      rw [same, absent] at found
      cases found
    exact (AList.lookup_insert_ne ne).trans (acquire.lookup_pinned found pinned)
  | write =>
    rw [writeInPlace]
    split <;> exact found
  | flushAll =>
    apply foldl_flushIfDirty (motive := fun pool => pool.pageTable.lookup pid = some frameId)
      _ inv (fun _ mem => mem) found
    intro pool entry _ _ found
    rw [flushIfDirty_pageTable]
    exact found
  | @delete deleted _ _ found' unpinned =>
    have ne : pid ≠ deleted := by
      intro same
      rw [same, found'] at found
      cases found
      exact pinned.ne' unpinned
    exact (AList.lookup_erase_ne ne).trans found
  | _ => exact found

/-! ## The bookkeeping over LRU-K -/

/-- The five structures of the pool and of its replacer agree. -/
structure Bookkeeping (pool : BufferPoolManager LRUKReplacer Data) (flat : FlatStore Data) :
    Prop where
  freeNodup : pool.freeList.Nodup
  /-- Every frame is free or holds a page, not both. -/
  inOnePlace : ∀ frameId < pool.poolSize,
    Xor (frameId ∈ pool.freeList) (∃ pid, pool.pageTable.lookup pid = some frameId)
  inRange : ∀ frameId, frameId ∈ pool.freeList ∨
    (∃ pid, pool.pageTable.lookup pid = some frameId) → frameId < pool.poolSize
  injective : ∀ pid pid' frameId, pool.pageTable.lookup pid = some frameId →
    pool.pageTable.lookup pid' = some frameId → pid = pid'
  cached : ∀ pid frameId, pool.pageTable.lookup pid = some frameId →
    (pool.frames frameId).pageId = some pid ∧
      ∃ state, pool.replacer.frames.lookup frameId = some state ∧ state.history ≠ [] ∧
        (state.evictable = true ↔ (pool.frames frameId).pinCount = 0)
  free : ∀ frameId ∈ pool.freeList,
    pool.replacer.frames.lookup frameId = none ∧ pool.frames frameId = Frame.blank
  count : pool.replacer.evictableCount =
    countFrames FrameState.evictable pool.replacer.frames
  pins : ∀ pid, pinsIn pool.cache pid = flat.pins pid ∧ 0 ≤ flat.pins pid

lemma Bookkeeping.of_inv {pool : BufferPoolManager LRUKReplacer Data}
    (inv : PoolInv (LRUKReplacer.lawful numFrames) none pool) (agrees : Agrees pool flat) :
    Bookkeeping pool flat where
  freeNodup := inv.freeNodup
  inOnePlace := by
    intro frameId inPool
    rw [inv.poolSize_eq] at inPool
    rcases inv.covered (.inl inPool) with mem | impossible | mapped
    · refine .inl ⟨mem, ?_⟩
      intro mapped
      obtain ⟨pid, found⟩ := mapped
      exact (inv.free (.inl mem)).2.2.2 pid found
    · cases impossible
    · refine .inr ⟨mapped, ?_⟩
      intro mem
      obtain ⟨pid, found⟩ := mapped
      exact (inv.free (.inl mem)).2.2.2 pid found
  inRange := by
    intro frameId place
    rw [inv.poolSize_eq]
    rcases place with mem | ⟨pid, found⟩
    · exact (inv.free (.inl mem)).1
    · exact (inv.cached found).1
  injective := fun _ _ _ found found' => inv.inj found found'
  cached := by
    intro pid frameId found
    have known := inv.cached found
    obtain ⟨state, listed, evictable⟩ := map_eq_some_iff.mp known.2.2.2
    refine ⟨known.2.1, state, listed, inv.valid.accessed frameId state listed, ?_⟩
    rw [evictable]
    exact decide_eq_true_iff
  free := by
    intro frameId mem
    have known := inv.free (.inl mem)
    exact ⟨Option.map_eq_none_iff.mp known.2.1, known.2.2.1⟩
  count := inv.valid.count
  pins := by
    intro pid
    rw [agrees.pins]
    refine ⟨rfl, ?_⟩
    cases found : pool.pageTable.lookup pid with
    | none => exact (pinsIn_of_absent found).ge
    | some frameId =>
      rw [pinsIn_of_lookup found]
      exact (inv.cached found).2.2.1

/-- The bookkeeping holds after every sequence of calls that fetches pages only once they
are allocated, and no further call throws, moves a pinned page, or returns `nullptr` when a
frame can be had. -/
theorem bookkeeping_kept {poolSize k : Nat} {disk : DiskManager Data}
    {pool : BufferPoolManager LRUKReplacer Data} {flat : FlatStore Data} (k_pos : 0 < k)
    (noFaults : ∀ n, disk.fails n = false)
    (reached : Reaches LRUKReplacer.replacer FlatStore.Allocated
      (BufferPoolManager.create poolSize disk { numFrames := poolSize, k }) pool flat) :
    Bookkeeping pool flat ∧ ∀ call, flat.Allocated call →
      ∃ answer pool', perform LRUKReplacer.replacer call pool = .ok answer pool' ∧
        (answer = .noFrame ↔ NeedsFrame pool call ∧ Exhausted pool) ∧
        ∀ pid frameId, pool.pageTable.lookup pid = some frameId →
          0 < (pool.frames frameId).pinCount → pool'.pageTable.lookup pid = some frameId := by
  have start : PoolInv (LRUKReplacer.lawful poolSize) none
      (BufferPoolManager.create poolSize disk { numFrames := poolSize, k }) :=
    .create noFaults ⟨rfl, k_pos, nofun, rfl⟩ rfl
  have kept := reached.inv id start .create
  refine ⟨.of_inv kept.1 kept.2, fun call _ => ?_⟩
  rcases perform_effect kept.1 call with ⟨answer, pool', ran, effect⟩
  exact ⟨answer, pool', ran, effect.noFrame_iff kept.1,
    fun _ _ found pinned => effect.lookup_pinned kept.1 found pinned⟩

/-- A pool over an empty file. -/
def smallPool (poolSize : Nat) : BufferPoolManager LRUKReplacer Nat :=
  BufferPoolManager.create poolSize {} { numFrames := poolSize, k := 2 }

theorem bookkeeping_kept_smallPool : ∃ pool flat,
    Reaches LRUKReplacer.replacer FlatStore.Allocated (smallPool 2) pool flat ∧
      pool.numHits = 1 ∧ Bookkeeping pool flat := by
  have reached : Reaches LRUKReplacer.replacer FlatStore.Allocated (smallPool 2) _ _ :=
    .call (.fetchPage 0) (.call .newPage .start trivial rfl) rfl rfl
  exact ⟨_, _, reached, rfl, (bookkeeping_kept (by decide) (fun _ => rfl) reached).1⟩

/-- A page fetched before it is allocated loses its frame when `NewPage` allocates it; and
a cached page can be fetched though every frame is pinned. -/
theorem earlyFetch_loses_frame :
    (∃ pool flat, Reaches LRUKReplacer.replacer (fun _ _ => True) (smallPool 2) pool flat ∧
      0 < pool.poolSize ∧ 0 ∉ pool.freeList ∧
        ∀ pid, pool.pageTable.lookup pid ≠ some 0) ∧
    ∃ pool flat pool', Reaches LRUKReplacer.replacer (fun _ _ => True) (smallPool 1) pool flat ∧
      Exhausted pool ∧
        perform LRUKReplacer.replacer (.fetchPage 0) pool = .ok (.page 0 0) pool' := by
  constructor
  · have reached : Reaches LRUKReplacer.replacer (fun _ _ => True) (smallPool 2) _ _ :=
      .call .newPage (.call (.fetchPage 0) .start trivial rfl) trivial rfl
    refine ⟨_, _, reached, by decide, by decide, ?_⟩
    intro pid found
    -- Page 0 is the only entry of the page table, and it is in frame 1.
    have mem : (⟨pid, 0⟩ : Sigma fun _ : PageId => FrameId) ∈ [⟨0, 1⟩] :=
      AList.mem_lookup_iff.mp found
    cases mem with
    | tail _ impossible => cases impossible
  · have reached : Reaches LRUKReplacer.replacer (fun _ _ => True) (smallPool 1) _ _ :=
      .call .newPage .start trivial rfl
    exact ⟨_, _, _, reached, ⟨rfl, by decide⟩, rfl⟩

end DbEngine.Buffer
