import DbEngine.Buffer.Calls

/-!
# The bookkeeping is kept

Every effect keeps `PoolInv`, provided pages are fetched only once they are allocated.
-/

namespace DbEngine.Buffer

open Lib (PageId)
open BufferPoolManager Function

variable {State Data : Type} [Zero Data] {replacer : Replacer State} {numFrames : Nat}
  {lawful : replacer.Lawful numFrames} {pool : BufferPoolManager State Data}

variable {disk : DiskManager Data} {state : State} {frameId : FrameId} {pid : PageId}
  {data : Data}

lemma PoolInv.create (noFaults : ∀ n, disk.fails n = false) (valid : lawful.Valid state)
    (untracked : lawful.tracked state = fun _ => none) :
    PoolInv lawful none (BufferPoolManager.create numFrames disk state) where
  poolSize_eq := rfl
  noFaults
  valid
  freeNodup := List.nodup_range
  free := by
    intro frameId mem
    rcases mem with mem | impossible
    · refine ⟨mem_range.mp mem, ?_, rfl, nofun⟩
      exact congrFun untracked frameId
    · cases impossible
  takenApart := nofun
  cached := nofun
  covered := by
    intro frameId inPool
    rcases inPool with inPool | known
    · exact .inl (mem_range.mpr inPool)
    · exact absurd (congrFun untracked frameId) known
  allocated := nofun

/-- The page taken into an empty frame is the only one there. -/
lemma PoolInv.installed (inv : PoolInv lawful (some frameId) pool)
    (noFaults : ∀ n, disk.fails n = false) (absent : pool.pageTable.lookup pid = none)
    (known : pid < disk.nextPageId) (grown : pool.disk.nextPageId ≤ disk.nextPageId)
    (pinned : Retracked lawful pool.replacer frameId (some false) state) :
    PoolInv lawful none (pool.installed disk frameId pid data state) := by
  have empty := inv.free (.inr rfl)
  have apart {pid' : PageId} {other : FrameId} (found : pool.pageTable.lookup pid' = some other) :
      other ≠ frameId := by
    intro same
    exact empty.2.2.2 pid' (found.trans (congrArg some same))
  have lookup_cases {pid' : PageId} {other : FrameId}
      (found : (pool.pageTable.insert pid frameId).lookup pid' = some other) :
      pid' = pid ∧ other = frameId ∨ pool.pageTable.lookup pid' = some other := by
    by_cases same : pid' = pid
    · subst same
      rw [AList.lookup_insert] at found
      exact .inl ⟨rfl, (Option.some.inj found).symm⟩
    · rw [AList.lookup_insert_ne same] at found
      exact .inr found
  exact
    { poolSize_eq := inv.poolSize_eq
      noFaults
      valid := pinned.valid
      freeNodup := inv.freeNodup
      free := by
        intro other mem
        rcases mem with mem | impossible
        · have old := inv.free (.inl mem)
          have ne : other ≠ frameId := by
            intro same
            exact inv.takenApart (congrArg some same) mem
          refine ⟨old.1, ?_, ?_, ?_⟩
          · simp [BufferPoolManager.installed, pinned.tracked, ne, old.2.1]
          · simp [BufferPoolManager.installed, setFrame, ne, old.2.2.1]
          · intro pid' found
            rcases lookup_cases found with ⟨-, same⟩ | found
            · exact ne same
            · exact old.2.2.2 pid' found
        · cases impossible
      takenApart := nofun
      cached := by
        intro pid' other found
        rcases lookup_cases found with ⟨same, same'⟩ | found
        · subst same same'
          refine ⟨empty.1, ?_⟩
          simp [BufferPoolManager.installed, setFrame, pinned.tracked]
        · simpa [BufferPoolManager.installed, setFrame, pinned.tracked,
            update_of_ne (apart found)] using inv.cached found
      covered := by
        intro other inPool
        by_cases same : other = frameId
        · subst same
          exact .inr (.inr ⟨pid, AList.lookup_insert _⟩)
        · have inPool' : other < numFrames ∨ lawful.tracked pool.replacer other ≠ none := by
            simpa [BufferPoolManager.installed, pinned.tracked, update_of_ne same] using inPool
          rcases inv.covered inPool' with mem | taken | ⟨pid', found⟩
          · exact .inl mem
          · exact absurd (Option.some.inj taken) same
          · refine .inr (.inr ⟨pid', ?_⟩)
            have ne : pid' ≠ pid := by
              intro same'
              rw [same', absent] at found
              cases found
            exact (AList.lookup_insert_ne ne).trans found
      allocated := by
        intro pid' other found
        rcases lookup_cases found with ⟨same, -⟩ | found
        · rw [same]
          exact known
        · exact (inv.allocated found).trans_le grown }

section

variable (inv : PoolInv lawful none pool) (found : pool.pageTable.lookup pid = some frameId)
include inv found

/-- A change to the pins, the contents or the dirty flag of one cached page. -/
lemma PoolInv.changed {numHits : Nat} (noFaults : ∀ n, disk.fails n = false)
    (same_next : disk.nextPageId = pool.disk.nextPageId) (held : frame.pageId = some pid)
    (counted : 0 ≤ frame.pinCount)
    (marked : Retracked lawful pool.replacer frameId (some (decide (frame.pinCount = 0))) state) :
    PoolInv lawful none { pool.setFrame frameId frame with replacer := state, disk, numHits } where
  poolSize_eq := inv.poolSize_eq
  noFaults
  valid := marked.valid
  freeNodup := inv.freeNodup
  free := by
    intro other mem
    have old := inv.free mem
    have ne : other ≠ frameId := by
      intro same
      exact old.2.2.2 pid (found.trans (congrArg some same.symm))
    refine ⟨old.1, ?_, ?_, old.2.2.2⟩
    · simp [marked.tracked, ne, old.2.1]
    · simp [setFrame, ne, old.2.2.1]
  takenApart := nofun
  cached := by
    intro pid' other found'
    by_cases same : other = frameId
    · subst same
      have same' := inv.inj found' found
      subst same'
      refine ⟨(inv.cached found).1, ?_, ?_, ?_⟩
      · simpa [setFrame] using held
      · simpa [setFrame] using counted
      · simp [setFrame, marked.tracked]
    · simpa [setFrame, marked.tracked, update_of_ne same] using inv.cached found'
  covered := by
    intro other inPool
    by_cases same : other = frameId
    · exact .inr (.inr ⟨pid, found.trans (congrArg some same.symm)⟩)
    · apply inv.covered
      simpa [marked.tracked, update_of_ne same] using inPool
  allocated := by
    intro pid' other found'
    rw [same_next]
    exact inv.allocated found'

/-- The replacer's view of a cached page need not change. -/
lemma PoolInv.retracked_self : Retracked lawful pool.replacer frameId
      (some (decide ((pool.frames frameId).pinCount = 0))) pool.replacer where
  valid := inv.valid
  tracked := by
    rw [← (inv.cached found).2.2.2, update_eq_self]

lemma PoolInv.flushFrame : PoolInv lawful none (pool.flushFrame pid frameId) :=
  inv.changed found inv.noFaults rfl (inv.cached found).2.1 (inv.cached found).2.2.1
    (inv.retracked_self found)

end

lemma PoolInv.writeInPlace (inv : PoolInv lawful none pool) :
    PoolInv lawful none (writeInPlace pid data pool) := by
  rw [Buffer.writeInPlace]
  split
  · exact inv
  next frameId found =>
    exact inv.changed found inv.noFaults rfl (inv.cached found).2.1 (inv.cached found).2.2.1
      (inv.retracked_self found)

lemma PoolInv.flushIfDirty (inv : PoolInv lawful none pool)
    (mem : entry ∈ pool.pageTable.entries) : PoolInv lawful none (pool.flushIfDirty entry) := by
  rw [BufferPoolManager.flushIfDirty]
  split
  · exact inv.flushFrame (AList.mem_lookup_iff.mpr mem)
  · exact inv

omit [Zero Data] in
lemma flushIfDirty_pageTable (entry : Sigma fun _ : PageId => FrameId) :
    (pool.flushIfDirty entry).pageTable = pool.pageTable := by
  rw [BufferPoolManager.flushIfDirty]
  split <;> rfl

/-- `FlushAllPages` keeps what each of its iterations keeps. -/
lemma foldl_flushIfDirty {motive : BufferPoolManager State Data → Prop}
    (entries : List (Sigma fun _ : PageId => FrameId)) (inv : PoolInv lawful none pool)
    (listed : ∀ entry ∈ entries, entry ∈ pool.pageTable.entries) (start : motive pool)
    (step : ∀ {pool entry}, PoolInv lawful none pool → entry ∈ pool.pageTable.entries →
      motive pool → motive (pool.flushIfDirty entry)) :
    motive (entries.foldl BufferPoolManager.flushIfDirty pool) := by
  induction entries generalizing pool with
  | nil => exact start
  | cons entry rest ih =>
    have mem := listed entry mem_cons_self
    apply ih (inv.flushIfDirty mem) _ (step inv mem start)
    intro other mem
    rw [flushIfDirty_pageTable]
    exact listed other (mem_cons_of_mem _ mem)

lemma PoolInv.deleted (inv : PoolInv lawful none pool)
    (found : pool.pageTable.lookup pid = some frameId)
    (removed : Retracked lawful pool.replacer frameId none state) :
    PoolInv lawful none { pool.setFrame frameId Frame.blank with
      replacer := state
      pageTable := pool.pageTable.erase pid
      freeList := pool.freeList ++ [frameId] } := by
  have outside : frameId ∉ pool.freeList := fun mem => (inv.free (.inl mem)).2.2.2 pid found
  exact
    { poolSize_eq := inv.poolSize_eq
      noFaults := inv.noFaults
      valid := removed.valid
      freeNodup := by
        apply List.Nodup.append inv.freeNodup (List.nodup_singleton frameId)
        rw [List.disjoint_singleton]
        exact outside
      free := by
        intro other mem
        rcases mem with mem | impossible
        · rcases mem_append.mp mem with mem | same
          · have old := inv.free (.inl mem)
            have ne : other ≠ frameId := fun same => outside (same ▸ mem)
            refine ⟨old.1, ?_, ?_, fun pid' kept => ?_⟩
            · simp [removed.tracked, ne, old.2.1]
            · simp [setFrame, ne, old.2.2.1]
            · exact old.2.2.2 pid' (lookup_erase_of_some kept).2
          · cases mem_singleton.mp same
            refine ⟨(inv.cached found).1, ?_, ?_, fun pid' kept => inv.apart found kept rfl⟩
            · simp [removed.tracked]
            · simp [setFrame]
        · cases impossible
      takenApart := nofun
      cached := by
        intro pid' other kept
        simpa [setFrame, removed.tracked, update_of_ne (inv.apart found kept)] using
          inv.cached (lookup_erase_of_some kept).2
      covered := by
        intro other inPool
        by_cases same : other = frameId
        · exact .inl (mem_append.mpr (.inr (mem_singleton.mpr same)))
        · have inPool' : other < numFrames ∨ lawful.tracked pool.replacer other ≠ none := by
            simpa [removed.tracked, update_of_ne same] using inPool
          rcases inv.covered inPool' with mem | impossible | ⟨pid', mapped⟩
          · exact .inl (mem_append.mpr (.inl mem))
          · cases impossible
          · refine .inr (.inr ⟨pid', ?_⟩)
            have ne : pid' ≠ pid := by
              intro same'
              rw [same', found] at mapped
              exact same (Option.some.inj mapped).symm
            exact (AList.lookup_erase_ne ne).trans mapped
      allocated := fun kept => inv.allocated (lookup_erase_of_some kept).2 }

/-- The page `NewPage` allocates next is not cached. -/
lemma PoolInv.lookup_nextPageId (inv : PoolInv lawful taken pool) :
    pool.pageTable.lookup pool.disk.nextPageId = none := by
  cases found : pool.pageTable.lookup pool.disk.nextPageId with
  | none => rfl
  | some frameId => exact absurd (inv.allocated found) (lt_irrefl _)

/-- A frame is taken only for pages that are not cached. -/
lemma Acquired.lookup_none (acquire : Acquired lawful pool frameId acquired)
    (absent : pool.pageTable.lookup pid = none) : acquired.pageTable.lookup pid = none := by
  cases acquire with
  | free => exact absent
  | @evicted pid' =>
    cases kept : (pool.pageTable.erase pid').lookup pid with
    | none => exact kept
    | some other =>
      rw [(lookup_erase_of_some kept).2] at absent
      cases absent

/-- The bookkeeping survives every call that fetches no page before it is allocated. -/
lemma PoolInv.effect (inv : PoolInv lawful none pool)
    (known : ∀ pid, call = .fetchPage pid → pid < pool.disk.nextPageId)
    (effect : Effect lawful pool call answer pool') : PoolInv lawful none pool' := by
  cases effect with
  | newPage acquire pinned =>
    have inv' := inv.acquired acquire
    exact inv'.installed inv'.noFaults inv'.lookup_nextPageId (Nat.lt_succ_self _)
      (Nat.le_succ _) pinned
  | newPageNone | unpinRefused | flushAbsent | deleteAbsent | deletePinned => exact inv
  | fetchHit found pinned =>
    have known := inv.cached found
    have positive := Int.lt_add_one_of_le known.2.2.1
    refine inv.changed found inv.noFaults rfl known.2.1 positive.le ?_
    simpa [positive.ne'] using pinned
  | @fetchMiss pid _ _ _ absent acquire pinned =>
    have inv₀ := inv.missed
    have inv' := inv₀.acquired acquire
    refine inv'.installed inv'.noFaults (acquire.lookup_none absent) ?_ le_rfl pinned
    exact (known pid rfl).trans_eq acquire.nextPageId_eq.symm
  | fetchNone => exact { inv with }
  | write => exact inv.writeInPlace
  | unpin found pinned counted =>
    exact inv.changed found inv.noFaults rfl (inv.cached found).2.1
      (Int.sub_nonneg_of_le pinned) counted
  | flush found => exact inv.flushFrame found
  | flushAll =>
    exact foldl_flushIfDirty _ inv (fun _ mem => mem) inv fun inv mem _ => inv.flushIfDirty mem
  | delete found _ removed => exact inv.deleted found removed

end DbEngine.Buffer
