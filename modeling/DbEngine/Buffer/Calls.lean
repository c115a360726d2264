import DbEngine.Buffer.Effect
import DbEngine.Lib.StateCalls

/-!
# The calls have their effects

Each operation of the pool, run under `PoolInv` on a disk that does not fail, returns, and
its result is one of those `Effect` lists.
-/

namespace DbEngine.Buffer

open BufferPoolManager (flushIfDirty onDisk)
open Lib Function BufferPoolManager DiskManager

variable {State Data : Type}

/-! ## Running a call -/

section

variable {σ α : Type}

variable {pool : BufferPoolManager σ Data} {disk : DiskManager Data} {value : α} {pid : PageId}

lemma onDisk_of_ok (ran : action pool.disk = .ok value disk) :
    onDisk action pool = .ok value { pool with disk } := by
  simp only [onDisk, ran]

lemma onReplacer_of_ok (ran : action pool.replacer = .ok (value, after)) :
    onReplacer action pool = .ok value { pool with replacer := after } := by
  simp only [onReplacer, ran]

lemma DiskManager.writePage_ok (noFault : disk.fails disk.transfers = false) :
    writePage (some pid) data disk = .ok () (disk.store pid data) := by
  simp only [writePage, run_get_bind, noFault]
  rfl

lemma DiskManager.readPage_ok [Zero Data] (noFault : disk.fails disk.transfers = false) :
    readPage pid disk = .ok (disk.contents pid) disk.transferred := by
  simp only [readPage, run_get_bind, run_set_bind, noFault]
  rfl

lemma notePin_ok {replacer : Replacer σ} {lawful : replacer.Lawful numFrames}
    (valid : lawful.Valid pool.replacer) (inRange : frameId < numFrames) :
    ∃ state, notePin replacer frameId pool = .ok () { pool with replacer := state } ∧
      Retracked lawful pool.replacer frameId (some false) state := by
  obtain ⟨state, ran, valid', tracked⟩ := lawful.recordAccess_ok valid inRange
  have known : (lawful.tracked state frameId).isSome := by simp [tracked]
  have set := lawful.setEvictable_ok false valid' known
  refine ⟨replacer.setEvictable frameId false state, ?_, set.1, ?_⟩
  · have recorded : recordAccess replacer frameId pool = .ok () { pool with replacer := state } :=
      onReplacer_of_ok (by rw [ran]; rfl)
    rw [notePin, bind_of_ok recorded]
    rfl
  · rw [set.2, tracked, update_idem]

lemma flushEntry_ok (noFaults : ∀ n, pool.disk.fails n = false)
    (entry : Sigma fun _ : PageId => FrameId) :
    flushEntry entry.1 entry.2 pool = .ok () (pool.flushIfDirty entry) := by
  rw [flushEntry, run_get_bind, flushIfDirty]
  cases dirty : (pool.frames entry.2).isDirty with
  | false => rfl
  | true =>
    have written : onDisk (writePage (some entry.1) (pool.frames entry.2).data)
        pool =
        .ok () { pool with disk := pool.disk.store entry.1 (pool.frames entry.2).data } :=
      onDisk_of_ok (writePage_ok (noFaults _))
    simp only [if_true]
    rw [bind_of_ok written]
    rfl

lemma flushIfDirty_fails (entry : Sigma fun _ : PageId => FrameId) :
    (pool.flushIfDirty entry).disk.fails = pool.disk.fails := by
  rw [flushIfDirty]
  split <;> rfl

lemma flushEntries_ok (entries : List (Sigma fun _ : PageId => FrameId))
    (noFaults : ∀ n, pool.disk.fails n = false) : flushEntries entries pool =
      .ok () (entries.foldl flushIfDirty pool) := by
  induction entries generalizing pool with
  | nil => rfl
  | cons entry rest ih =>
    rw [flushEntries, bind_of_ok (flushEntry_ok noFaults entry)]
    apply ih
    rw [flushIfDirty_fails]
    exact noFaults

end

variable [Zero Data] {replacer : Replacer State} {numFrames : Nat}
  {lawful : replacer.Lawful numFrames} {pool : BufferPoolManager State Data}

open BufferPoolManager

lemma evictFrame_ok (inv : PoolInv lawful none pool) (listed : pool.freeList = []) :
    (Exhausted pool ∧ evictFrame replacer pool = .ok none pool) ∨
      ∃ frameId acquired, evictFrame replacer pool = .ok (some frameId) acquired ∧
        Acquired lawful pool frameId acquired := by
  rcases lawful.evict_ok inv.valid with ⟨ran, none_evictable⟩ |
    ⟨frameId, state, ran, evictable, valid, tracked⟩
  · refine .inl ⟨⟨listed, fun frameId inPool => ?_⟩, ?_⟩
    · rw [inv.poolSize_eq] at inPool
      rcases inv.covered (.inl inPool) with inFree | impossible | ⟨pid, found⟩
      · rw [listed] at inFree
        cases inFree
      · cases impossible
      · have known := inv.cached found
        apply lt_of_le_of_ne known.2.2.1
        intro zero
        apply none_evictable frameId
        rw [known.2.2.2, ← zero]
        rfl
    · rw [evictFrame, bind_of_ok (onReplacer_of_ok ran)]
      rfl
  · obtain ⟨pid, found, unpinned⟩ := inv.exists_cached evictable
    refine .inr ⟨frameId, _, ?_, .evicted listed found unpinned valid tracked⟩
    have held := (inv.cached found).2.1
    rw [evictFrame, bind_of_ok (onReplacer_of_ok ran)]
    simp only [run_get_bind, held]
    cases dirty : (pool.frames frameId).isDirty with
    | false => simp [dropVictim, dirty, BufferPoolManager.eraseEntry, setFrame]
    | true =>
      have written : onDisk (writePage (some pid) (pool.frames frameId).data)
          { pool with replacer := state } = .ok () { pool with
            replacer := state
            disk := pool.disk.store pid (pool.frames frameId).data } :=
        onDisk_of_ok (writePage_ok (inv.noFaults _))
      simp only [if_true]
      rw [bind_of_ok written]
      simp [dropVictim, dirty, BufferPoolManager.eraseEntry, setFrame]

lemma acquireFrame_ok (inv : PoolInv lawful none pool) :
    (Exhausted pool ∧ acquireFrame replacer pool = .ok none pool) ∨
      ∃ frameId acquired, acquireFrame replacer pool = .ok (some frameId) acquired ∧
        Acquired lawful pool frameId acquired := by
  rw [acquireFrame, run_get_bind]
  cases listed : pool.freeList with
  | cons frameId rest => exact .inr ⟨frameId, _, rfl, .free listed⟩
  | nil => exact evictFrame_ok inv listed

/-! ## Acquiring and installing keep the invariant -/

lemma dropVictim_nextPageId (pool : BufferPoolManager State Data) (pid : PageId)
    (frameId : FrameId) (state : State) :
    (pool.dropVictim pid frameId state).disk.nextPageId = pool.disk.nextPageId := by
  rw [dropVictim]
  split <;> rfl

lemma dropVictim_fails (pool : BufferPoolManager State Data) (pid : PageId)
    (frameId : FrameId) (state : State) :
    (pool.dropVictim pid frameId state).disk.fails = pool.disk.fails := by
  rw [dropVictim]
  split <;> rfl

variable {frameId : FrameId}

lemma Acquired.nextPageId_eq (acquire : Acquired lawful pool frameId acquired) :
    acquired.disk.nextPageId = pool.disk.nextPageId := by
  cases acquire with
  | free => rfl
  | evicted => exact dropVictim_nextPageId ..

/-- A frame just emptied is in no other place. -/
lemma PoolInv.acquired (inv : PoolInv lawful none pool)
    {acquired : BufferPoolManager State Data} (acquire : Acquired lawful pool frameId acquired) :
    PoolInv lawful (some frameId) acquired := by
  cases acquire with
  | @free _ rest head =>
    have inFree {other : FrameId} (mem : other ∈ rest ∨ some other = some frameId) :
        other ∈ pool.freeList := by
      rw [head]
      rcases mem with mem | same
      · exact mem_cons_of_mem _ mem
      · cases same
        exact mem_cons_self
    have nodup := inv.freeNodup
    rw [head, nodup_cons] at nodup
    exact
      { poolSize_eq := inv.poolSize_eq
        noFaults := inv.noFaults
        valid := inv.valid
        freeNodup := nodup.2
        free := fun mem => inv.free (.inl (inFree mem))
        takenApart := by
          rintro other same
          cases same
          exact nodup.1
        cached := inv.cached
        covered := by
          intro other inPool
          rcases inv.covered inPool with mem | impossible | mapped
          · rw [head] at mem
            rcases mem_cons.mp mem with same | mem
            · exact .inr (.inl (congrArg some same))
            · exact .inl mem
          · cases impossible
          · exact .inr (.inr mapped)
        allocated := inv.allocated }
  | @evicted pid _ state noFree found unpinned valid tracked =>
    exact
      { poolSize_eq := inv.poolSize_eq
        noFaults := by
          rw [dropVictim_fails]
          exact inv.noFaults
        valid
        freeNodup := inv.freeNodup
        free := by
          intro other mem
          rcases mem with mem | same
          · change other ∈ pool.freeList at mem
            rw [noFree] at mem
            cases mem
          · cases same
            refine ⟨(inv.cached found).1, ?_, ?_, fun pid' kept => inv.apart found kept rfl⟩
            · simp [dropVictim, tracked]
            · simp [dropVictim, setFrame]
        takenApart := by
          intro other _ mem
          change other ∈ pool.freeList at mem
          rw [noFree] at mem
          cases mem
        cached := by
          intro pid' other kept
          have old := inv.cached (lookup_erase_of_some kept).2
          simpa [dropVictim, setFrame, tracked, update_of_ne (inv.apart found kept)] using old
        covered := by
          intro other inPool
          by_cases same : other = frameId
          · exact .inr (.inl (congrArg some same))
          · have inPool' : other < numFrames ∨ lawful.tracked pool.replacer other ≠ none := by
              simpa [dropVictim, tracked, update_of_ne same] using inPool
            rcases inv.covered inPool' with mem | impossible | ⟨pid', mapped⟩
            · exact .inl mem
            · cases impossible
            · refine .inr (.inr ⟨pid', ?_⟩)
              have ne : pid' ≠ pid := by
                intro same'
                rw [same', found] at mapped
                exact same (Option.some.inj mapped).symm
              exact (AList.lookup_erase_ne ne).trans mapped
        allocated := by
          intro pid' other kept
          rw [dropVictim_nextPageId]
          exact inv.allocated (lookup_erase_of_some kept).2 }

/-! ## Every call has one of the effects -/

lemma install_ok (disk : DiskManager Data) (pid : PageId) (data : Data)
    (inv : PoolInv lawful (some frameId) acquired) (same : pool = { acquired with disk }) :
    ∃ state, install replacer frameId pid data pool =
        .ok () (acquired.installed disk frameId pid data state) ∧
      Retracked lawful acquired.replacer frameId (some false) state := by
  subst same
  rw [install, run_modify_bind]
  exact notePin_ok inv.valid (inv.free (.inr rfl)).1

section

variable (inv : PoolInv lawful none pool)
include inv

lemma perform_newPage : ∃ answer pool', perform replacer .newPage pool = .ok answer pool' ∧
      Effect lawful pool .newPage answer pool' := by
  rcases acquireFrame_ok inv with ⟨full, ran⟩ | ⟨frameId, acquired, ran, acquire⟩
  · refine ⟨.noFrame, pool, ?_, .newPageNone full⟩
    have returned : newPage replacer pool = .ok none pool := by
      rw [newPage, bind_of_ok ran]
      rfl
    rw [perform, bind_of_ok returned]
    rfl
  · have inv' := inv.acquired acquire
    obtain ⟨state, put, pinned⟩ :=
      install_ok acquired.disk.allocated acquired.disk.nextPageId 0 inv' rfl
    refine ⟨_, _, ?_, .newPage acquire pinned⟩
    have allocated : onDisk allocatePage acquired =
        .ok acquired.disk.nextPageId { acquired with disk := acquired.disk.allocated } :=
      rfl
    have returned : newPage replacer pool = .ok (some (acquired.disk.nextPageId, frameId))
        (acquired.installed acquired.disk.allocated frameId acquired.disk.nextPageId 0
          state) := by
      rw [newPage, bind_of_ok ran]
      simp only
      rw [bind_of_ok allocated, run_get_bind, (inv'.free (.inr rfl)).2.2.1, Frame.blank,
        bind_of_ok put]
      rfl
    rw [perform, bind_of_ok returned]
    simp [installed, setFrame]

lemma PoolInv.missed : PoolInv lawful none { pool with numMisses := pool.numMisses + 1 } :=
  { inv with }

lemma perform_fetchPage (pid : PageId) :
    ∃ answer pool', perform replacer (.fetchPage pid) pool = .ok answer pool' ∧
      Effect lawful pool (.fetchPage pid) answer pool' := by
  cases found : pool.pageTable.lookup pid with
  | some frameId =>
    have inv₁ : lawful.Valid (pool.setFrame frameId { pool.frames frameId with
        pinCount := (pool.frames frameId).pinCount + 1 }).replacer := inv.valid
    obtain ⟨state, ran, pinned⟩ := notePin_ok inv₁ (inv.cached found).1
    refine ⟨_, _, ?_, .fetchHit found pinned⟩
    have returned : fetchPage replacer pid pool = .ok (some frameId)
        { pool.setFrame frameId { pool.frames frameId with
            pinCount := (pool.frames frameId).pinCount + 1 } with
          replacer := state
          numHits := pool.numHits + 1 } := by
      rw [fetchPage, run_get_bind, found]
      simp only
      rw [run_set_bind, bind_of_ok ran]
      rfl
    rw [perform, bind_of_ok returned]
    simp [setFrame]
  | none =>
    have inv₀ := inv.missed
    rcases acquireFrame_ok inv₀ with ⟨full, ran⟩ | ⟨frameId, acquired, ran, acquire⟩
    · refine ⟨.noFrame, _, ?_, .fetchNone found full⟩
      have returned : fetchPage replacer pid pool =
          .ok none { pool with numMisses := pool.numMisses + 1 } := by
        rw [fetchPage, run_get_bind, found]
        simp only
        rw [run_set_bind, bind_of_ok ran]
        rfl
      rw [perform, bind_of_ok returned]
      rfl
    · have inv' := inv₀.acquired acquire
      obtain ⟨state, put, pinned⟩ :=
        install_ok acquired.disk.transferred pid (acquired.disk.contents pid) inv' rfl
      refine ⟨_, _, ?_, .fetchMiss found acquire pinned⟩
      have read : onDisk (readPage pid) acquired =
          .ok (acquired.disk.contents pid) { acquired with disk := acquired.disk.transferred } :=
        onDisk_of_ok (readPage_ok (inv'.noFaults _))
      have returned : fetchPage replacer pid pool = .ok (some frameId)
          (acquired.installed acquired.disk.transferred frameId pid
            (acquired.disk.contents pid) state) := by
        rw [fetchPage, run_get_bind, found]
        simp only
        rw [run_set_bind, bind_of_ok ran]
        simp only
        rw [bind_of_ok read, bind_of_ok put]
        rfl
      rw [perform, bind_of_ok returned]
      simp [installed, setFrame]

lemma perform_unpinPage (pid : PageId) (isDirty : Bool) :
    ∃ answer pool', perform replacer (.unpinPage pid isDirty) pool = .ok answer pool' ∧
      Effect lawful pool (.unpinPage pid isDirty) answer pool' := by
  cases found : pool.pageTable.lookup pid with
  | none =>
    refine ⟨.flag false, pool, ?_, .unpinRefused fun other => ?_⟩
    · have returned : unpinPage replacer pid isDirty pool = .ok false pool := by
        rw [unpinPage, run_get_bind, found]
        rfl
      rw [perform, bind_of_ok returned]
      rfl
    · rw [found] at other
      cases other
  | some frameId =>
    have known := inv.cached found
    rcases known.2.2.1.lt_or_eq with pinned | unpinned
    · have tracked : (lawful.tracked pool.replacer frameId).isSome := by
        rw [known.2.2.2]
        rfl
      have positive : ¬ (pool.frames frameId).pinCount ≤ 0 := not_le.mpr pinned
      by_cases last : (pool.frames frameId).pinCount - 1 = 0
      · have set := lawful.setEvictable_ok true inv.valid tracked
        refine ⟨.flag true, _, ?_, .unpin found pinned ⟨set.1, ?_⟩⟩
        · have returned : unpinPage replacer pid isDirty pool = .ok true
              { pool.setFrame frameId { pool.frames frameId with
                  isDirty := (pool.frames frameId).isDirty || isDirty
                  pinCount := (pool.frames frameId).pinCount - 1 } with
                replacer := replacer.setEvictable frameId true pool.replacer } := by
            rw [unpinPage, run_get_bind, found]
            simp only [positive, last]
            rfl
          rw [perform, bind_of_ok returned]
          rfl
        · rw [set.2, last]
          rfl
      · have counted : Retracked lawful pool.replacer frameId
            (some (decide ((pool.frames frameId).pinCount - 1 = 0))) pool.replacer := by
          refine ⟨inv.valid, ?_⟩
          rw [eq_update_self_iff, known.2.2.2]
          simp [last, pinned.ne']
        refine ⟨.flag true, _, ?_, .unpin found pinned counted⟩
        have returned : unpinPage replacer pid isDirty pool = .ok true
            (pool.setFrame frameId { pool.frames frameId with
              isDirty := (pool.frames frameId).isDirty || isDirty
              pinCount := (pool.frames frameId).pinCount - 1 }) := by
          rw [unpinPage, run_get_bind, found]
          simp only [positive, last]
          rfl
        rw [perform, bind_of_ok returned]
        rfl
    · refine ⟨.flag false, pool, ?_, .unpinRefused fun other => ?_⟩
      · have returned : unpinPage replacer pid isDirty pool = .ok false pool := by
          rw [unpinPage, run_get_bind, found]
          simp only [← unpinned]
          rfl
        rw [perform, bind_of_ok returned]
        rfl
      · rw [found] at other
        cases other
        exact unpinned.symm

lemma perform_flushPage (pid : PageId) :
    ∃ answer pool', perform replacer (.flushPage pid) pool = .ok answer pool' ∧
      Effect lawful pool (.flushPage pid) answer pool' := by
  cases found : pool.pageTable.lookup pid with
  | none =>
    refine ⟨.flag false, pool, ?_, .flushAbsent found⟩
    have returned : flushPage pid pool = .ok false pool := by
      rw [flushPage, run_get_bind, found]
      rfl
    rw [perform, bind_of_ok returned]
    rfl
  | some frameId =>
    refine ⟨.flag true, _, ?_, .flush found⟩
    have written : onDisk (writePage (pool.frames frameId).pageId (pool.frames frameId).data) pool =
        .ok () { pool with disk := pool.disk.store pid (pool.frames frameId).data } := by
      rw [(inv.cached found).2.1]
      exact onDisk_of_ok (writePage_ok (inv.noFaults _))
    have returned : flushPage pid pool = .ok true (pool.flushFrame pid frameId) := by
      rw [flushPage, run_get_bind, found]
      simp only
      rw [bind_of_ok written]
      rfl
    rw [perform, bind_of_ok returned]
    rfl

lemma perform_deletePage (pid : PageId) :
    ∃ answer pool', perform replacer (.deletePage pid) pool = .ok answer pool' ∧
      Effect lawful pool (.deletePage pid) answer pool' := by
  cases found : pool.pageTable.lookup pid with
  | none =>
    refine ⟨.flag true, pool, ?_, .deleteAbsent found⟩
    have returned : deletePage replacer pid pool = .ok true pool := by
      rw [deletePage, run_get_bind, found]
      rfl
    rw [perform, bind_of_ok returned]
    rfl
  | some frameId =>
    have known := inv.cached found
    rcases known.2.2.1.lt_or_eq with pinned | unpinned
    · refine ⟨.flag false, pool, ?_, .deletePinned found pinned⟩
      have returned : deletePage replacer pid pool = .ok false pool := by
        rw [deletePage, run_get_bind, found]
        simp only [pinned]
        rfl
      rw [perform, bind_of_ok returned]
      rfl
    · have tracked : (lawful.tracked pool.replacer frameId).isSome := by
        rw [known.2.2.2]
        rfl
      have set := lawful.setEvictable_ok true inv.valid tracked
      have evictable : lawful.tracked (replacer.setEvictable frameId true pool.replacer)
          frameId = some true := by
        rw [set.2, update_self]
      obtain ⟨state, ran, valid, removed⟩ := lawful.remove_ok set.1 evictable
      rw [set.2, update_idem] at removed
      refine ⟨.flag true, _, ?_, .delete found unpinned.symm ⟨valid, removed⟩⟩
      have marked : setEvictable replacer frameId true pool =
          .ok () { pool with replacer := replacer.setEvictable frameId true pool.replacer } :=
        rfl
      have dropped : removeFrame replacer frameId
          { pool with replacer := replacer.setEvictable frameId true pool.replacer } =
          .ok () { pool with replacer := state } :=
        onReplacer_of_ok (by rw [ran]; rfl)
      have returned : deletePage replacer pid pool = .ok true
          { pool.setFrame frameId Frame.blank with
            replacer := state
            pageTable := pool.pageTable.erase pid
            freeList := pool.freeList ++ [frameId] } := by
        rw [deletePage, run_get_bind, found]
        simp only [← unpinned, lt_irrefl, if_false]
        rw [bind_of_ok marked, bind_of_ok dropped]
        rfl
      rw [perform, bind_of_ok returned]
      rfl

/-- No call throws, and each does what `Effect` says. -/
lemma perform_effect (call : Call Data) :
    ∃ answer pool', perform replacer call pool = .ok answer pool' ∧
      Effect lawful pool call answer pool' := by
  cases call with
  | newPage => exact perform_newPage inv
  | fetchPage pid => exact perform_fetchPage inv pid
  | write pid data => exact ⟨.done, _, rfl, .write⟩
  | unpinPage pid isDirty => exact perform_unpinPage inv pid isDirty
  | flushPage pid => exact perform_flushPage inv pid
  | flushAllPages =>
    refine ⟨.done, _, ?_, .flushAll⟩
    have returned : flushAllPages pool = .ok () (pool.pageTable.entries.foldl flushIfDirty pool) :=
      flushEntries_ok _ inv.noFaults
    rw [perform, bind_of_ok returned]
    rfl
  | deletePage pid => exact perform_deletePage inv pid

end

end DbEngine.Buffer
