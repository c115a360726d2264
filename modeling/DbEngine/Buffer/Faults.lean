import DbEngine.Buffer.Bookkeeping

/-!
# Disk errors

What an `IOException` leaves of the pool.  The flushing calls write before they change
anything, so an error in one of them loses nothing.  `AcquireFrame` takes the victim from
the replacer before it writes it back, and `FetchPage` takes a frame before it reads; an
error there leaves a frame that no later call can have.
-/

namespace DbEngine.Buffer

open LRUKReplacer (lawful replacer)
open Lib BufferPoolManager

variable {State Data : Type}

namespace BufferPoolManager

/-- The pool on a disk whose `n`-th transfer fails when `fails n`. -/
def withFaults (pool : BufferPoolManager State Data) (fails : Nat → Bool) :
    BufferPoolManager State Data :=
  { pool with disk := { pool.disk with fails } }

/-- The pool after a transfer that failed. -/
def faulted (pool : BufferPoolManager State Data) : BufferPoolManager State Data :=
  { pool with disk := pool.disk.transferred }

end BufferPoolManager

/-- The calls that write pages without taking a frame. -/
def Call.Flushes : Call Data → Prop
  | .flushPage _ | .flushAllPages => True
  | _ => False

/-- What a flush keeps that did not come to its end: everything but the dirty flags, and
those of pages that are on disk. -/
structure FlushKept (pool pool' : BufferPoolManager State Data) : Prop where
  poolSize : pool'.poolSize = pool.poolSize
  freeList : pool'.freeList = pool.freeList
  pageTable : pool'.pageTable = pool.pageTable
  replacer : pool'.replacer = pool.replacer
  nextPageId : pool'.disk.nextPageId = pool.disk.nextPageId
  frames : ∀ frameId, { pool'.frames frameId with isDirty := (pool.frames frameId).isDirty } =
    pool.frames frameId
  written : ∀ {pid frameId}, pool.pageTable.lookup pid = some frameId →
    (pool'.frames frameId).isDirty = (pool.frames frameId).isDirty ∨
      pool'.disk.pages pid = some (pool.frames frameId).data

lemma FlushKept.refl (pool : BufferPoolManager State Data) : FlushKept pool pool :=
  ⟨rfl, rfl, rfl, rfl, rfl, fun _ => rfl, fun _ => .inl rfl⟩

lemma flushIfDirty_withFaults (pool : BufferPoolManager State Data) (fails : Nat → Bool)
    (entry : Sigma fun _ : PageId => FrameId) :
    (pool.withFaults fails).flushIfDirty entry = (pool.flushIfDirty entry).withFaults fails := by
  rw [flushIfDirty, flushIfDirty]
  cases dirty : (pool.frames entry.2).isDirty with
  | false => simp [withFaults, dirty]
  | true => simp [withFaults, dirty, flushFrame, setFrame, DiskManager.store]

lemma foldl_withFaults (entries : List (Sigma fun _ : PageId => FrameId))
    (pool : BufferPoolManager State Data) (fails : Nat → Bool) :
    (entries.foldl flushIfDirty pool).withFaults fails =
      entries.foldl flushIfDirty (pool.withFaults fails) := by
  induction entries generalizing pool with
  | nil => rfl
  | cons entry rest ih =>
    rw [foldl_cons, foldl_cons, flushIfDirty_withFaults]
    exact ih (pool.flushIfDirty entry)

/-- A write is done, or fails and changes nothing. -/
lemma onDisk_writePage (pool : BufferPoolManager State Data) (pid : PageId) (data : Data) :
    BufferPoolManager.onDisk (DiskManager.writePage (some pid) data) pool =
        .ok () { pool with disk := pool.disk.store pid data } ∨
      ∃ failure, BufferPoolManager.onDisk (DiskManager.writePage (some pid) data) pool =
        .error failure pool.faulted := by
  cases fault : pool.disk.fails pool.disk.transfers with
  | false => exact .inl (onDisk_of_ok (DiskManager.writePage_ok fault))
  | true =>
    right
    simp only [BufferPoolManager.onDisk, DiskManager.writePage, run_get_bind, fault]
    exact ⟨_, rfl⟩

/-- One iteration of `FlushAllPages` is done, or its write fails. -/
lemma flushEntry_fault (pool : BufferPoolManager State Data)
    (entry : Sigma fun _ : PageId => FrameId) :
    flushEntry entry.1 entry.2 pool = .ok () (pool.flushIfDirty entry) ∨
      ∃ failure, flushEntry entry.1 entry.2 pool = .error failure pool.faulted := by
  rw [flushEntry, run_get_bind, flushIfDirty]
  cases dirty : (pool.frames entry.2).isDirty with
  | false => exact .inl rfl
  | true =>
    simp only [if_true]
    rcases onDisk_writePage pool entry.1 (pool.frames entry.2).data with wrote | ⟨failure, failed⟩
    · left
      rw [bind_of_ok wrote]
      rfl
    · exact .inr ⟨failure, bind_of_error failed⟩

variable {failure : Failure} {call : Call Data} {start : BufferPoolManager State Data}
  {flat : FlatStore Data}

/-- A failing loop has done some of its iterations. -/
lemma flushEntries_fault (failed : flushEntries entries pool = .error failure pool') :
    ∃ done, done ⊆ entries ∧ pool' = (done.foldl flushIfDirty pool).faulted := by
  induction entries generalizing pool with
  | nil => cases failed
  | cons entry rest ih =>
    rw [flushEntries] at failed
    rcases flushEntry_fault pool entry with ran | ⟨failure', ran⟩
    · rw [bind_of_ok ran] at failed
      obtain ⟨done, among, reached⟩ := ih failed
      exact ⟨entry :: done, List.cons_subset_cons entry among, reached⟩
    · rw [bind_of_error ran] at failed
      cases failed
      exact ⟨[], List.nil_subset _, rfl⟩

variable [Zero Data] {replacer : Replacer State} {numFrames : Nat}
  {lawful : replacer.Lawful numFrames} {pool pool' : BufferPoolManager State Data}

/-- A flush that throws has flushed some of the pages. -/
lemma perform_flush_fault (flushes : call.Flushes)
    (inv : PoolInv lawful none (pool.withFaults fun _ => false))
    (failed : perform replacer call pool = .error failure pool') :
    ∃ done, done ⊆ pool.pageTable.entries ∧ pool' = (done.foldl flushIfDirty pool).faulted := by
  cases call with
  | flushAllPages =>
    cases ran : flushAllPages pool with
    | ok value after =>
      rw [perform, bind_of_ok ran] at failed
      cases failed
    | error failure' after =>
      rw [perform, bind_of_error ran] at failed
      cases failed
      exact flushEntries_fault ran
  | flushPage pid =>
    rw [perform, flushPage] at failed
    cases found : pool.pageTable.lookup pid with
    | none =>
      simp only [found, bind_assoc, run_get_bind] at failed
      cases failed
    | some frameId =>
      have held : (pool.frames frameId).pageId = some pid := (inv.cached found).2.1
      simp only [found, bind_assoc, run_get_bind, held] at failed
      rcases onDisk_writePage pool pid (pool.frames frameId).data with wrote | ⟨failure', refused⟩
      · rw [bind_of_ok wrote] at failed
        cases failed
      · rw [bind_of_error refused] at failed
        cases failed
        exact ⟨[], List.nil_subset _, rfl⟩
  | _ => exact flushes.elim

lemma FlushKept.flushIfDirty (inv : PoolInv lawful none pool)
    (listed : entry ∈ pool.pageTable.entries) (kept : FlushKept start pool) :
    FlushKept start (pool.flushIfDirty entry) := by
  rw [BufferPoolManager.flushIfDirty]
  split
  next dirty =>
    have found : pool.pageTable.lookup entry.1 = some entry.2 := AList.mem_lookup_iff.mpr listed
    have data := congrArg Frame.data (kept.frames entry.2)
    refine ⟨kept.poolSize, kept.freeList, kept.pageTable, kept.replacer, kept.nextPageId, ?_, ?_⟩
    · intro frameId
      by_cases same : frameId = entry.2
      · subst same
        simpa [flushFrame, setFrame] using kept.frames entry.2
      · simpa [flushFrame, setFrame, same] using kept.frames frameId
    · intro pid frameId cached
      rw [← kept.pageTable] at cached
      by_cases same : frameId = entry.2
      · subst same
        right
        simpa [flushFrame, DiskManager.store, inv.inj cached found] using data
      · have ne : pid ≠ entry.1 := by
          intro equal
          rw [equal, found] at cached
          exact same (Option.some.inj cached).symm
        rw [kept.pageTable] at cached
        simpa [flushFrame, setFrame, DiskManager.store, same, ne] using kept.written cached
  · exact kept

/-- A flush that throws keeps the bookkeeping. -/
lemma PoolInv.flush_fault (inv : PoolInv lawful none (pool.withFaults fun _ => false))
    (flushes : call.Flushes) (failed : perform replacer call pool = .error failure pool') :
    PoolInv lawful none (pool'.withFaults fun _ => false) ∧ FlushKept pool pool' := by
  obtain ⟨done, among, rfl⟩ := perform_flush_fault flushes inv failed
  have both : PoolInv lawful none
        ((done.foldl BufferPoolManager.flushIfDirty pool).withFaults fun _ => false) ∧
      FlushKept (pool.withFaults fun _ => false)
        ((done.foldl BufferPoolManager.flushIfDirty pool).withFaults fun _ => false) := by
    rw [foldl_withFaults]
    apply foldl_flushIfDirty (motive := fun pool' => PoolInv lawful none pool' ∧
      FlushKept (pool.withFaults fun _ => false) pool') done inv (fun entry mem => among mem)
      ⟨inv, .refl _⟩
    intro pool entry inv mem old
    exact ⟨inv.flushIfDirty mem, old.2.flushIfDirty inv mem⟩
  exact ⟨{ both.1 with }, { both.2 with }⟩

omit [Zero Data] in
lemma FlushKept.agrees (kept : FlushKept pool pool') (agrees : Agrees pool flat) :
    Agrees pool' flat where
  pins := by
    rw [agrees.pins]
    funext pid
    cases found : pool.pageTable.lookup pid with
    | none => rw [pinsIn_of_absent found, pinsIn_of_absent (kept.pageTable ▸ found)]
    | some frameId =>
      rw [pinsIn_of_lookup found, pinsIn_of_lookup (kept.pageTable ▸ found)]
      exact (congrArg Frame.pinCount (kept.frames frameId)).symm
  used := by
    rw [agrees.used, kept.nextPageId]

/-! ## Runs in which only flushes fail -/

/-- The states a pool reaches when disk errors happen during flushes only.  Which transfers
fail is decided anew before each call. -/
inductive FlushFaults (replacer : Replacer State) (start : BufferPoolManager State Data) :
    BufferPoolManager State Data → FlatStore Data → Prop where
  | start : FlushFaults replacer start start (.ofDisk start.disk)
  | call (call : Call Data) {pool pool' : BufferPoolManager State Data}
      {flat : FlatStore Data} {answer : Answer Data}
      (before : FlushFaults replacer start pool flat) (may : flat.Allocated call)
      (ran : perform replacer call (pool.withFaults fun _ => false) = .ok answer pool') :
      FlushFaults replacer start pool' (flat.after call answer)
  | fault {call : Call Data} (flushes : call.Flushes) (fails : Nat → Bool)
      {pool pool' : BufferPoolManager State Data} {flat : FlatStore Data} {failure : Failure}
      (before : FlushFaults replacer start pool flat)
      (failed : perform replacer call (pool.withFaults fails) = .error failure pool') :
      FlushFaults replacer start pool' flat

lemma FlushFaults.inv (reached : FlushFaults replacer start pool flat)
    (inv : PoolInv lawful none (start.withFaults fun _ => false))
    (agrees : Agrees start (.ofDisk start.disk)) :
    PoolInv lawful none (pool.withFaults fun _ => false) ∧ Agrees pool flat := by
  induction reached with
  | start => exact ⟨inv, agrees⟩
  | @call call pool pool' flat answer before may ran ih =>
    obtain ⟨answer', after, ran', effect⟩ := perform_effect ih.1 call
    rw [ran] at ran'
    cases ran'
    have agreed : Agrees (pool.withFaults fun _ => false) flat := { ih.2 with }
    refine ⟨{ ih.1.effect ?_ effect with noFaults := fun _ => rfl }, agreed.effect ih.1 effect⟩
    intro pid fetch
    rw [fetch, FlatStore.Allocated, ih.2.used] at may
    exact of_decide_eq_true may
  | @fault call flushes fails pool pool' flat failure before failed ih =>
    have calm : PoolInv lawful none ((pool.withFaults fails).withFaults fun _ => false) := ih.1
    have kept := calm.flush_fault flushes failed
    have agreed : Agrees (pool.withFaults fails) flat := { ih.2 with }
    exact ⟨kept.1, kept.2.agrees agreed⟩

/-- As long as disk errors happen only while pages are flushed, such an error leaves every
frame free or holding its page, pinned or evictable as before, and a page loses its dirty
flag only when its contents are on disk. -/
theorem flushFault_loses_nothing {poolSize k : Nat} {disk : DiskManager Data}
    {pool pool' : BufferPoolManager LRUKReplacer Data} {flat : FlatStore Data} (k_pos : 0 < k)
    (reached : FlushFaults LRUKReplacer.replacer
      (BufferPoolManager.create poolSize disk { numFrames := poolSize, k }) pool flat)
    {call : Call Data} (flushes : call.Flushes) {fails : Nat → Bool} {failure : Failure}
    (failed : perform LRUKReplacer.replacer call (pool.withFaults fails) =
      .error failure pool') :
    Bookkeeping pool' flat ∧ FlushKept pool pool' := by
  have start : PoolInv (lawful poolSize) none (BufferPoolManager.create poolSize
      { disk with fails := fun _ => false } { numFrames := poolSize, k }) :=
    .create (fun _ => rfl) ⟨rfl, k_pos, nofun, rfl⟩ rfl
  have inv := reached.inv start .create
  have calm : PoolInv (lawful poolSize) none
      ((pool.withFaults fails).withFaults fun _ => false) := inv.1
  have agreed : Agrees (pool.withFaults fails) flat := { inv.2 with }
  have kept := calm.flush_fault flushes failed
  have after : Agrees (pool'.withFaults fun _ => false) flat := { kept.2.agrees agreed with }
  exact ⟨{ Bookkeeping.of_inv kept.1 after with }, { kept.2 with }⟩

/-- The only page of a pool cannot be written. -/
theorem flushFault_loses_nothing_onePage : ∃ pool pool' flat failure,
    perform LRUKReplacer.replacer (.flushPage 0)
        (withFaults (pool : BufferPoolManager LRUKReplacer Nat) fun n => n == 0) =
      .error failure pool' ∧ Bookkeeping pool' flat ∧ FlushKept pool pool' := by
  have reached : ∃ pool flat, FlushFaults replacer (smallPool 1) pool flat ∧
      ∃ failure pool', perform replacer (.flushPage 0)
        (pool.withFaults fun n => n == 0) = .error failure pool' :=
    ⟨_, _, .call .newPage .start trivial rfl, _, _, rfl⟩
  rcases reached with ⟨pool, flat, reached, failure, pool', failed⟩
  have flushes : (Call.flushPage 0 : Call Nat).Flushes := trivial
  exact ⟨pool, pool', flat, failure, failed,
    flushFault_loses_nothing (by decide) reached flushes failed⟩

/-- The pool an exception leaves. -/
def thrown {ε σ α : Type} : EStateM.Result ε σ α → Option σ
  | .ok _ _ => none
  | .error _ state => some state

/-- The answer of a call that returns. -/
def returned {ε σ α : Type} : EStateM.Result ε σ α → Option α
  | .ok answer _ => some answer
  | .error _ _ => none

/-- A read that fails loses the frame `FetchPage` has taken: it is neither free nor does it
hold a page.  A victim that cannot be written back keeps its page, but is neither free nor
pinned nor evictable.  Either way a pool of one frame has none left. -/
theorem fault_loses_frame :
    (thrown (perform LRUKReplacer.replacer (.fetchPage 0) ((finalState (performAll
        LRUKReplacer.replacer [.newPage, .unpinPage 0 false, .newPage, .unpinPage 1 false]
        (smallPool 1))).withFaults fun n => n == 0))).map (fun pool =>
      (pool.freeList, pool.pageTable.keys,
        returned (perform LRUKReplacer.replacer .newPage pool))) =
      some ([], [], some .noFrame) ∧
    (thrown (perform LRUKReplacer.replacer .newPage ((finalState (performAll
        LRUKReplacer.replacer [.newPage, .unpinPage 0 true]
        (smallPool 1))).withFaults fun n => n == 0))).map (fun pool =>
      (pool.freeList, (pool.frames 0).pinCount, (pool.replacer.frames.lookup 0).isSome,
        returned (perform LRUKReplacer.replacer .newPage pool))) =
      some ([], 0, false, some .noFrame) := by
  decide +kernel

end DbEngine.Buffer
