import DbEngine.Buffer.Pool

/-!
# What a call does

`PoolInv` is what the five structures of the pool keep between calls.  Under it no call
throws when the disk does not, and `Effect` lists the changes each call can make; every
other fact about the pool is read off that list.
-/

namespace DbEngine.Buffer

open Lib (PageId)

variable {State Data : Type}

/-! ## Changes -/

/-- The disk after `AllocatePage`. -/
def DiskManager.allocated (disk : DiskManager Data) : DiskManager Data :=
  { disk with nextPageId := disk.nextPageId + 1 }

/-- The disk after a read. -/
def DiskManager.transferred (disk : DiskManager Data) : DiskManager Data :=
  { disk with transfers := disk.transfers + 1 }

namespace BufferPoolManager

variable [Zero Data] (pool : BufferPoolManager State Data)

/-- The pool without the page of a victim, which is on disk. -/
def dropVictim (pid : PageId) (frameId : FrameId) (replacer : State) :
    BufferPoolManager State Data :=
  { pool.setFrame frameId Frame.blank with
    replacer
    disk := if (pool.frames frameId).isDirty then
      pool.disk.store pid (pool.frames frameId).data else pool.disk
    pageTable := pool.pageTable.erase pid }

/-- The pool with a page in a frame, pinned once. -/
def installed (disk : DiskManager Data) (frameId : FrameId) (pid : PageId) (data : Data)
    (replacer : State) : BufferPoolManager State Data :=
  { pool.setFrame frameId { data, pageId := some pid, pinCount := 1 } with
    disk
    replacer
    pageTable := pool.pageTable.insert pid frameId }

/-- The pool after a frame was written to disk. -/
def flushFrame (pid : PageId) (frameId : FrameId) : BufferPoolManager State Data :=
  { pool.setFrame frameId { pool.frames frameId with isDirty := false } with
    disk := pool.disk.store pid (pool.frames frameId).data }

/-- `FlushAllPages` skips the clean frames. -/
def flushIfDirty (entry : Sigma fun _ : PageId => FrameId) : BufferPoolManager State Data :=
  if (pool.frames entry.2).isDirty then pool.flushFrame entry.1 entry.2 else pool

end BufferPoolManager

/-- The state of a replacer in which only the flag of one frame differs. -/
structure Retracked {replacer : Replacer State} {numFrames : Nat}
    (lawful : replacer.Lawful numFrames) (before : State)
    (frameId : FrameId) (flag : Option Bool) (after : State) : Prop where
  valid : lawful.Valid after
  tracked : lawful.tracked after = Function.update (lawful.tracked before) frameId flag

/-! ## The invariant -/

variable [Zero Data] {replacer : Replacer State} {numFrames : Nat}

/-- What holds between calls.  Inside a call one frame may be in the hands of
`AcquireFrame`'s caller. -/
structure PoolInv (lawful : replacer.Lawful numFrames) (taken : Option FrameId)
    (pool : BufferPoolManager State Data) : Prop where
  poolSize_eq : pool.poolSize = numFrames
  noFaults : ∀ n, pool.disk.fails n = false
  valid : lawful.Valid pool.replacer
  freeNodup : pool.freeList.Nodup
  free : ∀ {frameId}, frameId ∈ pool.freeList ∨ some frameId = taken →
    frameId < numFrames ∧ lawful.tracked pool.replacer frameId = none ∧
      pool.frames frameId = Frame.blank ∧ ∀ pid, pool.pageTable.lookup pid ≠ some frameId
  takenApart : ∀ {frameId}, some frameId = taken → frameId ∉ pool.freeList
  cached : ∀ {pid frameId}, pool.pageTable.lookup pid = some frameId →
    frameId < numFrames ∧ (pool.frames frameId).pageId = some pid ∧
      0 ≤ (pool.frames frameId).pinCount ∧
      lawful.tracked pool.replacer frameId =
        some (decide ((pool.frames frameId).pinCount = 0))
  covered : ∀ {frameId}, frameId < numFrames ∨ lawful.tracked pool.replacer frameId ≠ none →
    frameId ∈ pool.freeList ∨ some frameId = taken ∨
      ∃ pid, pool.pageTable.lookup pid = some frameId
  allocated : ∀ {pid frameId}, pool.pageTable.lookup pid = some frameId →
    pid < pool.disk.nextPageId

lemma lookup_erase_of_some {table : AList fun _ : PageId => FrameId} {pid pid' : PageId}
    {frameId : FrameId} (found : (table.erase pid).lookup pid' = some frameId) :
    pid' ≠ pid ∧ table.lookup pid' = some frameId := by
  by_cases same : pid' = pid
  · subst same
    rw [AList.lookup_erase] at found
    cases found
  · rw [AList.lookup_erase_ne same] at found
    exact ⟨same, found⟩

namespace PoolInv

variable {lawful : replacer.Lawful numFrames} {taken : Option FrameId}
  {pool : BufferPoolManager State Data}

lemma inj (inv : PoolInv lawful taken pool) (found : pool.pageTable.lookup pid = some frameId)
    (found' : pool.pageTable.lookup pid' = some frameId) : pid = pid' :=
  Option.some.inj ((inv.cached found).2.1.symm.trans (inv.cached found').2.1)

/-- A page that stays is in another frame. -/
lemma apart {other : FrameId} (inv : PoolInv lawful taken pool)
    (found : pool.pageTable.lookup pid = some frameId)
    (kept : (pool.pageTable.erase pid).lookup pid' = some other) : other ≠ frameId := by
  rintro rfl
  obtain ⟨differs, there⟩ := lookup_erase_of_some kept
  exact differs (inv.inj there found)

lemma exists_cached (inv : PoolInv lawful none pool)
    (tracked : lawful.tracked pool.replacer frameId = some true) :
    ∃ pid, pool.pageTable.lookup pid = some frameId ∧ (pool.frames frameId).pinCount = 0 := by
  have known : lawful.tracked pool.replacer frameId ≠ none := by
    rw [tracked]
    nofun
  rcases inv.covered (.inr known) with inFree | impossible | ⟨pid, found⟩
  · exact absurd (inv.free (.inl inFree)).2.1 known
  · cases impossible
  · have same := (inv.cached found).2.2.2
    rw [tracked] at same
    exact ⟨pid, found, of_decide_eq_true (Option.some.inj same).symm⟩

end PoolInv

/-! ## Effects -/

/-- What `AcquireFrame` does when it finds a frame. -/
inductive Acquired (lawful : replacer.Lawful numFrames) (pool : BufferPoolManager State Data) :
    FrameId → BufferPoolManager State Data → Prop where
  | free (head : pool.freeList = frameId :: rest) :
      Acquired lawful pool frameId { pool with freeList := rest }
  | evicted (noFree : pool.freeList = [])
      (found : pool.pageTable.lookup pid = some frameId)
      (unpinned : (pool.frames frameId).pinCount = 0) (valid : lawful.Valid state)
      (tracked : lawful.tracked state =
        Function.update (lawful.tracked pool.replacer) frameId none) :
      Acquired lawful pool frameId (pool.dropVictim pid frameId state)

/-- Every frame is pinned and none is free. -/
def Exhausted (pool : BufferPoolManager State Data) : Prop :=
  pool.freeList = [] ∧ ∀ frameId < pool.poolSize, 0 < (pool.frames frameId).pinCount

/-- What a call does. -/
inductive Effect (lawful : replacer.Lawful numFrames) (pool : BufferPoolManager State Data) :
    Call Data → Answer Data → BufferPoolManager State Data → Prop where
  | newPage (acquire : Acquired lawful pool frameId acquired)
      (pinned : Retracked lawful acquired.replacer frameId (some false) state) :
      Effect lawful pool .newPage (.page acquired.disk.nextPageId 0)
        (acquired.installed acquired.disk.allocated frameId acquired.disk.nextPageId 0 state)
  | newPageNone (full : Exhausted pool) : Effect lawful pool .newPage .noFrame pool
  | fetchHit (found : pool.pageTable.lookup pid = some frameId)
      (pinned : Retracked lawful pool.replacer frameId (some false) state) :
      Effect lawful pool (.fetchPage pid) (.page pid (pool.frames frameId).data)
        { pool.setFrame frameId { pool.frames frameId with
            pinCount := (pool.frames frameId).pinCount + 1 } with
          replacer := state
          numHits := pool.numHits + 1 }
  | fetchMiss (absent : pool.pageTable.lookup pid = none)
      (acquire : Acquired lawful { pool with numMisses := pool.numMisses + 1 } frameId acquired)
      (pinned : Retracked lawful acquired.replacer frameId (some false) state) :
      Effect lawful pool (.fetchPage pid) (.page pid (acquired.disk.contents pid))
        (acquired.installed acquired.disk.transferred frameId pid
          (acquired.disk.contents pid) state)
  | fetchNone (absent : pool.pageTable.lookup pid = none)
      (full : Exhausted pool) :
      Effect lawful pool (.fetchPage pid) .noFrame
        { pool with numMisses := pool.numMisses + 1 }
  | write :
      Effect lawful pool (.write pid data) .done (writeInPlace pid data pool)
  | unpinRefused (unpinned : ∀ {frameId}, pool.pageTable.lookup pid = some frameId →
        (pool.frames frameId).pinCount = 0) :
      Effect lawful pool (.unpinPage pid isDirty) (.flag false) pool
  | unpin (found : pool.pageTable.lookup pid = some frameId)
      (pinned : 0 < (pool.frames frameId).pinCount)
      (counted : Retracked lawful pool.replacer frameId
        (some (decide ((pool.frames frameId).pinCount - 1 = 0))) state) :
      Effect lawful pool (.unpinPage pid isDirty) (.flag true)
        { pool.setFrame frameId { pool.frames frameId with
            isDirty := (pool.frames frameId).isDirty || isDirty
            pinCount := (pool.frames frameId).pinCount - 1 } with
          replacer := state }
  | flushAbsent (absent : pool.pageTable.lookup pid = none) :
      Effect lawful pool (.flushPage pid) (.flag false) pool
  | flush (found : pool.pageTable.lookup pid = some frameId) :
      Effect lawful pool (.flushPage pid) (.flag true) (pool.flushFrame pid frameId)
  | flushAll :
      Effect lawful pool .flushAllPages .done
        (pool.pageTable.entries.foldl BufferPoolManager.flushIfDirty pool)
  | deleteAbsent (absent : pool.pageTable.lookup pid = none) :
      Effect lawful pool (.deletePage pid) (.flag true) pool
  | deletePinned (found : pool.pageTable.lookup pid = some frameId)
      (pinned : 0 < (pool.frames frameId).pinCount) :
      Effect lawful pool (.deletePage pid) (.flag false) pool
  | delete (found : pool.pageTable.lookup pid = some frameId)
      (unpinned : (pool.frames frameId).pinCount = 0)
      (removed : Retracked lawful pool.replacer frameId none state) :
      Effect lawful pool (.deletePage pid) (.flag true)
        { pool.setFrame frameId Frame.blank with
          replacer := state
          pageTable := pool.pageTable.erase pid
          freeList := pool.freeList ++ [frameId] }

end DbEngine.Buffer
