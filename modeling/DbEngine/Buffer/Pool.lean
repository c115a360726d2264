import DbEngine.Buffer.Replacer
import DbEngine.Lib.PageProgram

/-!
# The buffer pool

`buffer/buffer_pool_manager.cpp` over `storage/disk/disk_manager.cpp` and any replacer.
The contents of a page are of any type with a zero, which stands for the all-zero page.  A
call that throws leaves the changes it has made, so the code is in `EStateM`.
-/

namespace DbEngine.Buffer

open Lib (PageId)

/-- `DiskManager`.  A page that was never written is not in the file, or in a hole of it. -/
structure DiskManager (Data : Type) where
  pages : PageId → Option Data := fun _ => none
  nextPageId : PageId := 0
  /-- Whether the `n`-th transfer fails. -/
  fails : Nat → Bool := fun _ => false
  transfers : Nat := 0

namespace DiskManager

variable {Data : Type} [Zero Data]

/-- The bytes of a page; a short read is filled up with zeros. -/
def contents (disk : DiskManager Data) (pid : PageId) : Data := (disk.pages pid).getD 0

/-- `DiskManager::ReadPage`. -/
def readPage (pid : PageId) : EStateM Failure (DiskManager Data) Data := do
  let disk ← get
  set { disk with transfers := disk.transfers + 1 }
  if disk.fails disk.transfers then
    throw (.ioException ("DiskManager: read failed for page " ++ toString pid))
  return disk.contents pid

/-- The disk after a page was written. -/
def store (disk : DiskManager Data) (pid : PageId) (data : Data) : DiskManager Data :=
  { disk with
    pages := Function.update disk.pages pid (some data)
    transfers := disk.transfers + 1 }

/-- `DiskManager::WritePage`.  `INVALID_PAGE_ID` is at a negative offset. -/
def writePage (pid : Option PageId) (data : Data) : EStateM Failure (DiskManager Data) Unit := do
  let disk ← get
  match pid with
  | none =>
    set { disk with transfers := disk.transfers + 1 }
    throw (.ioException "DiskManager: write failed for page -1")
  | some pid =>
    if disk.fails disk.transfers then
      set { disk with transfers := disk.transfers + 1 }
      throw (.ioException ("DiskManager: write failed for page " ++ toString pid))
    set (disk.store pid data)

/-- `DiskManager::AllocatePage`. -/
def allocatePage : EStateM Failure (DiskManager Data) PageId := do
  let disk ← get
  set { disk with nextPageId := disk.nextPageId + 1 }
  return disk.nextPageId

end DiskManager

/-- `Page`: a frame of the pool.  No page id is `INVALID_PAGE_ID`. -/
structure Frame (Data : Type) where
  data : Data
  pageId : Option PageId := none
  pinCount : Int := 0
  isDirty : Bool := false
  deriving Repr, DecidableEq

/-- What `Page::ResetMemory` leaves. -/
def Frame.blank {Data : Type} [Zero Data] : Frame Data := { data := 0 }

/-- `BufferPoolManager`. -/
structure BufferPoolManager (State Data : Type) where
  poolSize : Nat
  disk : DiskManager Data
  replacer : State
  frames : FrameId → Frame Data
  pageTable : AList fun _ : PageId => FrameId
  freeList : List FrameId
  numHits : Nat := 0
  numMisses : Nat := 0

namespace BufferPoolManager

variable {State Data : Type} [Zero Data]

/-- The constructor. -/
def create (poolSize : Nat) (disk : DiskManager Data) (replacer : State) :
    BufferPoolManager State Data where
  poolSize
  disk
  replacer
  frames := fun _ => Frame.blank
  pageTable := ∅
  freeList := range poolSize

/-- Change one frame. -/
def setFrame (pool : BufferPoolManager State Data) (frameId : FrameId) (frame : Frame Data) :
    BufferPoolManager State Data :=
  { pool with frames := Function.update pool.frames frameId frame }

/-- A call to the disk manager. -/
def onDisk {α : Type} (action : EStateM Failure (DiskManager Data) α) :
    EStateM Failure (BufferPoolManager State Data) α := fun pool =>
  match action pool.disk with
  | .ok result disk => .ok result { pool with disk }
  | .error failure disk => .error failure { pool with disk }

/-- A call to the replacer. -/
def onReplacer {α : Type} (action : State → Except Failure (α × State)) :
    EStateM Failure (BufferPoolManager State Data) α := fun pool =>
  match action pool.replacer with
  | .ok (result, replacer) => .ok result { pool with replacer }
  | .error failure => .error failure pool

variable (replacer : Replacer State)

def recordAccess (frameId : FrameId) : EStateM Failure (BufferPoolManager State Data) Unit :=
  onReplacer fun state => (replacer.recordAccess frameId state).map fun state => ((), state)

def setEvictable (frameId : FrameId) (evictable : Bool) :
    EStateM Failure (BufferPoolManager State Data) Unit :=
  onReplacer fun state => .ok ((), replacer.setEvictable frameId evictable state)

def removeFrame (frameId : FrameId) : EStateM Failure (BufferPoolManager State Data) Unit :=
  onReplacer fun state => (replacer.remove frameId state).map fun state => ((), state)

/-- What the replacer is told after every pin. -/
def notePin (frameId : FrameId) : EStateM Failure (BufferPoolManager State Data) Unit := do
  recordAccess replacer frameId
  setEvictable replacer frameId false

/-- `page_table_.erase` of the page a frame holds. -/
def eraseEntry (pageTable : AList fun _ : PageId => FrameId) :
    Option PageId → AList fun _ : PageId => FrameId
  | some pid => pageTable.erase pid
  | none => pageTable

/-- The second half of `AcquireFrame`: the page of the victim leaves the pool, after it is
written to disk if it is dirty. -/
def evictFrame : EStateM Failure (BufferPoolManager State Data) (Option FrameId) := do
  match ← onReplacer replacer.evict with
  | none => return none
  | some frameId =>
    let victim := (← get).frames frameId
    if victim.isDirty then
      onDisk (DiskManager.writePage victim.pageId victim.data)
    modify fun pool => { pool.setFrame frameId Frame.blank with
      pageTable := eraseEntry pool.pageTable victim.pageId }
    return some frameId

/-- `BufferPoolManager::AcquireFrame`. -/
def acquireFrame : EStateM Failure (BufferPoolManager State Data) (Option FrameId) := do
  let pool ← get
  match pool.freeList with
  | frameId :: rest =>
    set { pool with freeList := rest }
    return some frameId
  | [] => evictFrame replacer

/-- The end of `NewPage` and of a miss in `FetchPage`: the frame gets its page, pinned
once. -/
def install (frameId : FrameId) (pid : PageId) (data : Data) :
    EStateM Failure (BufferPoolManager State Data) Unit := do
  modify fun pool => { pool.setFrame frameId { data, pageId := some pid, pinCount := 1 } with
    pageTable := pool.pageTable.insert pid frameId }
  notePin replacer frameId

/-- `BufferPoolManager::NewPage`. -/
def newPage : EStateM Failure (BufferPoolManager State Data) (Option (PageId × FrameId)) := do
  match ← acquireFrame replacer with
  | none => return none
  | some frameId =>
    let pid ← onDisk DiskManager.allocatePage
    let data := ((← get).frames frameId).data
    install replacer frameId pid data
    return some (pid, frameId)

/-- `BufferPoolManager::FetchPage`. -/
def fetchPage (pid : PageId) :
    EStateM Failure (BufferPoolManager State Data) (Option FrameId) := do
  let pool ← get
  match pool.pageTable.lookup pid with
  | some frameId =>
    let frame := pool.frames frameId
    set (pool.setFrame frameId { frame with pinCount := frame.pinCount + 1 })
    notePin replacer frameId
    modify fun pool => { pool with numHits := pool.numHits + 1 }
    return some frameId
  | none =>
    set { pool with numMisses := pool.numMisses + 1 }
    match ← acquireFrame replacer with
    | none => return none
    | some frameId =>
      let data ← onDisk (DiskManager.readPage pid)
      install replacer frameId pid data
      return some frameId

/-- `BufferPoolManager::UnpinPage`. -/
def unpinPage (pid : PageId) (isDirty : Bool) :
    EStateM Failure (BufferPoolManager State Data) Bool := do
  let pool ← get
  match pool.pageTable.lookup pid with
  | none => return false
  | some frameId =>
    let frame := pool.frames frameId
    if frame.pinCount ≤ 0 then
      return false
    set (pool.setFrame frameId { frame with
      isDirty := frame.isDirty || isDirty
      pinCount := frame.pinCount - 1 })
    if frame.pinCount - 1 = 0 then
      setEvictable replacer frameId true
    return true

/-- `BufferPoolManager::FlushPage`. -/
def flushPage (pid : PageId) : EStateM Failure (BufferPoolManager State Data) Bool := do
  let pool ← get
  match pool.pageTable.lookup pid with
  | none => return false
  | some frameId =>
    let frame := pool.frames frameId
    onDisk (DiskManager.writePage frame.pageId frame.data)
    modify fun pool => pool.setFrame frameId { frame with isDirty := false }
    return true

/-- One iteration of `FlushAllPages`. -/
def flushEntry (pid : PageId) (frameId : FrameId) :
    EStateM Failure (BufferPoolManager State Data) Unit := do
  let frame := (← get).frames frameId
  if frame.isDirty then
    onDisk (DiskManager.writePage (some pid) frame.data)
    modify fun pool => pool.setFrame frameId { frame with isDirty := false }

def flushEntries : List (Sigma fun _ : PageId => FrameId) →
    EStateM Failure (BufferPoolManager State Data) Unit
  | [] => return ()
  | ⟨pid, frameId⟩ :: rest => do
    flushEntry pid frameId
    flushEntries rest

/-- `BufferPoolManager::FlushAllPages`. -/
def flushAllPages : EStateM Failure (BufferPoolManager State Data) Unit := do
  flushEntries (← get).pageTable.entries

/-- `BufferPoolManager::DeletePage`. -/
def deletePage (pid : PageId) : EStateM Failure (BufferPoolManager State Data) Bool := do
  let pool ← get
  match pool.pageTable.lookup pid with
  | none => return true
  | some frameId =>
    if 0 < (pool.frames frameId).pinCount then
      return false
    setEvictable replacer frameId true
    removeFrame replacer frameId
    modify fun pool => { pool.setFrame frameId Frame.blank with
      pageTable := pool.pageTable.erase pid
      freeList := pool.freeList ++ [frameId] }
    return true

end BufferPoolManager

/-! ## Calls -/

/-- What callers do, including the writes they make to a page they have pinned. -/
inductive Call (Data : Type) where
  | newPage
  | fetchPage (pid : PageId)
  | write (pid : PageId) (data : Data)
  | unpinPage (pid : PageId) (isDirty : Bool)
  | flushPage (pid : PageId)
  | flushAllPages
  | deletePage (pid : PageId)
  deriving Repr, DecidableEq

/-- What a caller gets to see. -/
inductive Answer (Data : Type) where
  /-- A pinned page and its contents. -/
  | page (pid : PageId) (data : Data)
  /-- `nullptr`. -/
  | noFrame
  | flag (result : Bool)
  | done
  deriving Repr, DecidableEq

section

variable {State Data : Type} [Zero Data] (replacer : Replacer State)

open BufferPoolManager

/-- A write through the pointer to a cached page. -/
def writeInPlace (pid : PageId) (data : Data) (pool : BufferPoolManager State Data) :
    BufferPoolManager State Data :=
  match pool.pageTable.lookup pid with
  | none => pool
  | some frameId => pool.setFrame frameId { pool.frames frameId with data }

/-- One call. -/
def perform : Call Data → EStateM Failure (BufferPoolManager State Data) (Answer Data)
  | .newPage => do
    match ← newPage replacer with
    | none => return .noFrame
    | some (pid, frameId) => return .page pid ((← get).frames frameId).data
  | .fetchPage pid => do
    match ← fetchPage replacer pid with
    | none => return .noFrame
    | some frameId => return .page pid ((← get).frames frameId).data
  | .write pid data => do
    modify (writeInPlace pid data)
    return .done
  | .unpinPage pid isDirty => return .flag (← unpinPage replacer pid isDirty)
  | .flushPage pid => return .flag (← flushPage pid)
  | .flushAllPages => do
    flushAllPages
    return .done
  | .deletePage pid => return .flag (← deletePage replacer pid)

/-- A sequence of calls. -/
def performAll : List (Call Data) →
    EStateM Failure (BufferPoolManager State Data) (List (Answer Data))
  | [] => return []
  | call :: rest => do
    let answer ← perform replacer call
    return answer :: (← performAll rest)

end

end DbEngine.Buffer
