import DbEngine.Common.Lists

/-!
# Replacers

`buffer/replacer.h`, `buffer/lru_k_replacer.cpp` and `buffer/lru_replacer.cpp`.  A
replacer tracks frames and whether each may be evicted.  What the buffer pool relies on is
stated once, in `Replacer.Lawful`, over the abstract view of a replacer as a partial map
from frames to that flag; both replacers are shown to meet it.
-/

namespace DbEngine.Buffer

open Function AList

/-- `frame_id_t`. -/
abbrev FrameId := Nat

inductive Failure where
  | ioException (message : String)
  /-- The front of an empty `std::deque`. -/
  | undefinedBehavior
  deriving Repr, DecidableEq

/-- `Replacer`.  A call that throws leaves the replacer as it was. -/
structure Replacer (State : Type) where
  evict : State → Except Failure (Option FrameId × State)
  recordAccess : FrameId → State → Except Failure State
  setEvictable : FrameId → Bool → State → State
  remove : FrameId → State → Except Failure State
  size : State → Nat

/-- What a replacer for `numFrames` frames does to the frames it tracks, as long as it is
told of an access to a frame before anything else. -/
structure Replacer.Lawful {State : Type} (replacer : Replacer State) (numFrames : Nat) where
  Valid : State → Prop
  /-- The frames tracked, with their evictable flag. -/
  tracked : State → FrameId → Option Bool
  recordAccess_ok : ∀ {state frameId}, Valid state → frameId < numFrames →
    ∃ state', replacer.recordAccess frameId state = .ok state' ∧ Valid state' ∧
      tracked state' = update (tracked state) frameId
        (some ((tracked state frameId).getD false))
  setEvictable_ok : ∀ {state frameId} (evictable : Bool), Valid state →
    (tracked state frameId).isSome →
    Valid (replacer.setEvictable frameId evictable state) ∧
      tracked (replacer.setEvictable frameId evictable state) =
        update (tracked state) frameId (some evictable)
  remove_ok : ∀ {state frameId}, Valid state → tracked state frameId = some true →
    ∃ state', replacer.remove frameId state = .ok state' ∧ Valid state' ∧
      tracked state' = update (tracked state) frameId none
  evict_ok : ∀ {state}, Valid state →
    (replacer.evict state = .ok (none, state) ∧
      ∀ frameId, tracked state frameId ≠ some true) ∨
    ∃ frameId state', replacer.evict state = .ok (some frameId, state') ∧
      tracked state frameId = some true ∧ Valid state' ∧
      tracked state' = update (tracked state) frameId none

/-! ## Counting entries -/

section

variable {State : Type} (test : State → Bool)

/-- How many entries of a map of frames pass a test. -/
def countFrames (frames : AList fun _ : FrameId => State) : Nat :=
  frames.entries.countP fun entry => test entry.2

/-- Whether a map holds a frame that passes the test. -/
def holdsFrame (frames : AList fun _ : FrameId => State) (frameId : FrameId) : Bool :=
  ((frames.lookup frameId).map test).getD false

lemma countP_kerase (frameId : FrameId) (entries : List (Sigma fun _ : FrameId => State)) :
    entries.countP (fun entry => test entry.2) =
      (entries.kerase frameId).countP (fun entry => test entry.2) +
        (((entries.dlookup frameId).map test).getD false).toNat := by
  induction entries with
  | nil => rfl
  | cons head rest ih =>
    obtain ⟨head, state⟩ := head
    by_cases same : frameId = head
    · subst same
      rw [countP_cons]
      cases passes : test state <;> simp [passes]
    · have ne : frameId ≠ (⟨head, state⟩ : Sigma fun _ : FrameId => State).1 := same
      rw [List.kerase_cons_ne ne, List.dlookup_cons_ne _ _ ne, countP_cons, countP_cons, ih]
      omega

variable (frames : AList fun _ : FrameId => State) (frameId : FrameId)

lemma countFrames_erase : countFrames test frames = countFrames test (frames.erase frameId) +
      (holdsFrame test frames frameId).toNat :=
  countP_kerase test frameId frames.entries

lemma countFrames_insert (state : State) : countFrames test (frames.insert frameId state) +
        (holdsFrame test frames frameId).toNat = countFrames test frames + (test state).toNat := by
  rw [countFrames_erase test frames frameId, countFrames, entries_insert, countP_cons]
  simp only [countFrames, AList.erase]
  cases test state <;> simp
  all_goals omega

lemma map_lookup_insert (value : State) :
    (fun query => ((frames.insert frameId value).lookup query).map test) =
      update (fun query => (frames.lookup query).map test) frameId (some (test value)) := by
  funext query
  by_cases same : query = frameId
  · subst same
    simp
  · simp [lookup_insert_ne same, same]

lemma map_lookup_erase : (fun query => ((frames.erase frameId).lookup query).map test) =
      update (fun query => (frames.lookup query).map test) frameId none := by
  funext query
  by_cases same : query = frameId
  · subst same
    simp
  · simp [lookup_erase_ne same, same]

end

/-! ## LRU-K -/

/-- `LRUKReplacer::FrameState`; the history lists the oldest access first. -/
structure FrameState where
  history : List Nat := []
  evictable : Bool := false
  deriving Repr, DecidableEq

/-- An access is added to the history, which keeps the last `k`. -/
def FrameState.touch (state : FrameState) (k now : Nat) : FrameState :=
  let history := state.history ++ [now]
  { state with history := if k < history.length then history.tail else history }

/-- `LRUKReplacer`. -/
structure LRUKReplacer where
  numFrames : Nat
  k : Nat
  currentTimestamp : Nat := 0
  evictableCount : Nat := 0
  frames : AList fun _ : FrameId => FrameState := ∅

namespace LRUKReplacer

/-- `LRUKReplacer::RecordAccess`. -/
def recordAccess (frameId : FrameId) (replacer : LRUKReplacer) :
    Except Failure LRUKReplacer :=
  if replacer.numFrames ≤ frameId then
    .error (.ioException "LRUKReplacer: frame_id out of range")
  else
    let state := (replacer.frames.lookup frameId).getD {}
    .ok { replacer with
      frames := replacer.frames.insert frameId
        (state.touch replacer.k replacer.currentTimestamp)
      currentTimestamp := replacer.currentTimestamp + 1 }

/-- `LRUKReplacer::SetEvictable`. -/
def setEvictable (frameId : FrameId) (evictable : Bool) (replacer : LRUKReplacer) :
    LRUKReplacer :=
  let state := (replacer.frames.lookup frameId).getD {}
  { replacer with
    evictableCount :=
      if state.evictable = evictable then replacer.evictableCount
      else if evictable then replacer.evictableCount + 1
      else replacer.evictableCount - 1
    frames := replacer.frames.insert frameId { state with evictable } }

/-- What the loop of `Evict` remembers of the best frame so far. -/
structure Best where
  frameId : FrameId
  isInf : Bool
  metric : Nat

/-- Whether the loop adopts a candidate. -/
def adopt (best : Option Best) (candidate : Best) : Bool :=
  match best with
  | none => true
  | some best =>
    if candidate.isInf ≠ best.isInf then candidate.isInf
    else if candidate.isInf then decide (candidate.metric < best.metric)
    else decide (best.metric < candidate.metric)

/-- A frame as the loop ranks it.  A frame with fewer than `k` accesses has infinite
backward distance, and goes by its oldest access. -/
def rank (replacer : LRUKReplacer) (frameId : FrameId) (state : FrameState) (oldest : Nat) :
    Best :=
  let isInf := decide (state.history.length < replacer.k)
  ⟨frameId, isInf, if isInf then oldest else replacer.currentTimestamp - oldest⟩

/-- One iteration of the loop of `Evict`. -/
def consider (replacer : LRUKReplacer) (best : Option Best)
    (entry : Sigma fun _ : FrameId => FrameState) : Except Failure (Option Best) :=
  if entry.2.evictable then
    match entry.2.history with
    | [] => .error .undefinedBehavior
    | oldest :: _ =>
      let candidate := replacer.rank entry.1 entry.2 oldest
      .ok (if adopt best candidate then some candidate else best)
  else
    .ok best

/-- `LRUKReplacer::Evict`. -/
def evict (replacer : LRUKReplacer) : Except Failure (Option FrameId × LRUKReplacer) := do
  let best ← replacer.frames.entries.foldlM replacer.consider none
  match best with
  | none => return (none, replacer)
  | some victim => return (some victim.frameId, { replacer with
      frames := replacer.frames.erase victim.frameId
      evictableCount := replacer.evictableCount - 1 })

/-- `LRUKReplacer::Remove`. -/
def remove (frameId : FrameId) (replacer : LRUKReplacer) : Except Failure LRUKReplacer :=
  match replacer.frames.lookup frameId with
  | none => .ok replacer
  | some state =>
    if state.evictable then
      .ok { replacer with
        evictableCount := replacer.evictableCount - 1
        frames := replacer.frames.erase frameId }
    else
      .error (.ioException "LRUKReplacer: cannot remove a non-evictable (pinned) frame")

/-- `LRUKReplacer::Size`. -/
def size (replacer : LRUKReplacer) : Nat := replacer.evictableCount

/-- The replacer as the buffer pool sees it. -/
def replacer : Replacer LRUKReplacer where
  evict := evict
  recordAccess := recordAccess
  setEvictable := setEvictable
  remove := remove
  size := size

/-- Every tracked frame has been accessed, and the counter counts. -/
structure Valid (numFrames : Nat) (replacer : LRUKReplacer) : Prop where
  frames_eq : replacer.numFrames = numFrames
  k_pos : 0 < replacer.k
  accessed : ∀ frameId state, replacer.frames.lookup frameId = some state →
    state.history ≠ []
  count : replacer.evictableCount = countFrames FrameState.evictable replacer.frames

/-- The frames tracked, with their evictable flag. -/
def tracked (replacer : LRUKReplacer) (frameId : FrameId) : Option Bool :=
  (replacer.frames.lookup frameId).map FrameState.evictable

section

variable {numFrames : Nat} {state : LRUKReplacer} {frameId : FrameId}

lemma touch_history_ne_nil {k now : Nat} (pos : 0 < k) (state : FrameState) :
    (state.touch k now).history ≠ [] := by
  apply ne_nil_of_length_pos
  simp only [FrameState.touch]
  -- A history that is cut was longer than `k ≥ 1`.
  split
  next long =>
    rw [List.length_tail]
    omega
  · simp

lemma holdsFrame_eq (frames : AList fun _ : FrameId => FrameState) :
    holdsFrame FrameState.evictable frames frameId =
      ((frames.lookup frameId).getD {}).evictable := by
  rw [holdsFrame]
  cases frames.lookup frameId <;> rfl

lemma remove_ok (valid : Valid numFrames state) (known : tracked state frameId = some true) :
    ∃ state', remove frameId state = .ok state' ∧ Valid numFrames state' ∧
      tracked state' = update (tracked state) frameId none := by
  obtain ⟨found, lookup, evictable⟩ := map_eq_some_iff.mp known
  refine ⟨{ state with
    evictableCount := state.evictableCount - 1
    frames := state.frames.erase frameId }, ?_, ⟨valid.frames_eq, valid.k_pos, ?_, ?_⟩,
    map_lookup_erase _ _ _⟩
  · simp only [remove, lookup, evictable, if_true]
  · intro query other lookup'
    have ne : query ≠ frameId := by
      intro same
      subst same
      simp at lookup'
    rw [lookup_erase_ne ne] at lookup'
    exact valid.accessed query other lookup'
  · have held := countFrames_erase FrameState.evictable state.frames frameId
    rw [holdsFrame_eq, lookup, getD_some, evictable] at held
    have count := valid.count
    simp only [Bool.toNat_true] at held
    simp only
    omega

/-- The loop of `Evict` settles on an evictable frame if it meets one. -/
lemma foldlM_consider (state : LRUKReplacer) (entries : List (Sigma fun _ : FrameId => FrameState))
    (accessed : ∀ entry ∈ entries, entry.2.history ≠ []) (best : Option Best) :
    ∃ result, entries.foldlM state.consider best = .ok result ∧
      (result = none → best = none ∧ ∀ entry ∈ entries, entry.2.evictable = false) ∧
      ∀ victim, result = some victim → best = some victim ∨
        ∃ entry ∈ entries, entry.1 = victim.frameId ∧ entry.2.evictable = true := by
  induction entries generalizing best with
  | nil => exact ⟨best, rfl, fun none => ⟨none, by simp⟩, fun _ same => Or.inl same⟩
  | cons entry rest ih =>
    have later := ih fun other mem => accessed other (mem_cons_of_mem _ mem)
    rw [List.foldlM_cons]
    cases evictable : entry.2.evictable with
    | false =>
      have skipped : state.consider best entry = .ok best := by simp [consider, evictable]
      obtain ⟨result, folded, none, some⟩ := later best
      refine ⟨result, by rw [skipped]; exact folded, ?_, ?_⟩
      · intro isNone
        obtain ⟨before, after⟩ := none isNone
        exact ⟨before, by simpa [evictable] using after⟩
      · intro victim isSome
        rcases some victim isSome with before | ⟨other, mem, found⟩
        · exact .inl before
        · exact .inr ⟨other, mem_cons_of_mem _ mem, found⟩
    | true =>
      have known := accessed entry mem_cons_self
      have taken : ∃ next, state.consider best entry = .ok (some next) ∧
          (next.frameId = entry.1 ∨ best = some next) := by
        cases history : entry.2.history with
        | nil => exact absurd history known
        | cons oldest others =>
          simp only [consider, evictable, if_true, history]
          split
          · exact ⟨_, rfl, .inl rfl⟩
          next kept =>
            cases best with
            | none => simp [adopt] at kept
            | some best => exact ⟨best, rfl, .inr rfl⟩
      obtain ⟨next, stepped, origin⟩ := taken
      obtain ⟨result, folded, none, some⟩ := later (some next)
      refine ⟨result, by rw [stepped]; exact folded, ?_, ?_⟩
      · intro isNone
        cases (none isNone).1
      · intro victim isSome
        rcases some victim isSome with before | ⟨other, mem, found⟩
        · cases before
          rcases origin with here | earlier
          · exact .inr ⟨entry, mem_cons_self, here.symm, evictable⟩
          · exact .inl earlier
        · exact .inr ⟨other, mem_cons_of_mem _ mem, found⟩

end

/-- LRU-K meets the requirements of the pool. -/
def lawful (numFrames : Nat) : replacer.Lawful numFrames where
  Valid := Valid numFrames
  tracked := tracked
  recordAccess_ok := by
    intro state frameId valid inRange
    have known : ¬ state.numFrames ≤ frameId := by
      rw [valid.frames_eq]
      exact not_le.mpr inRange
    refine ⟨_, if_neg known, ⟨valid.frames_eq, valid.k_pos, ?_, ?_⟩, ?_⟩
    · intro query found lookup
      by_cases same : query = frameId
      · subst same
        rw [lookup_insert, some.injEq] at lookup
        rw [← lookup]
        exact touch_history_ne_nil valid.k_pos _
      · rw [lookup_insert_ne same] at lookup
        exact valid.accessed query found lookup
    · have inserted := countFrames_insert FrameState.evictable state.frames frameId
        (((state.frames.lookup frameId).getD {}).touch state.k state.currentTimestamp)
      rw [holdsFrame_eq] at inserted
      exact valid.count.trans (Nat.add_right_cancel inserted).symm
    · refine (map_lookup_insert _ _ _ _).trans ?_
      simp only [tracked]
      cases state.frames.lookup frameId <;> rfl
  setEvictable_ok := by
    intro state frameId evictable valid known
    rw [tracked, Option.isSome_map] at known
    obtain ⟨found, lookup⟩ := isSome_iff_exists.mp known
    refine ⟨⟨valid.frames_eq, valid.k_pos, ?_, ?_⟩, map_lookup_insert _ _ _ _⟩
    · intro query other lookup'
      by_cases same : query = frameId
      · subst same
        simp only [replacer, setEvictable, lookup_insert, lookup, getD_some,
          some.injEq] at lookup'
        rw [← lookup']
        exact valid.accessed query found lookup
      · simp only [replacer, setEvictable, lookup_insert_ne same] at lookup'
        exact valid.accessed query other lookup'
    · have inserted := countFrames_insert FrameState.evictable state.frames frameId
        { found with evictable }
      have held := countFrames_erase FrameState.evictable state.frames frameId
      rw [holdsFrame_eq, lookup, getD_some] at inserted held
      have count := valid.count
      simp only [replacer, setEvictable, lookup, getD_some]
      cases old : found.evictable <;> cases evictable <;>
        simp [old] at inserted held ⊢ <;> omega
  remove_ok := remove_ok
  evict_ok := by
    intro state valid
    have accessed : ∀ entry ∈ state.frames.entries, entry.2.history ≠ [] := by
      intro entry mem
      exact valid.accessed entry.1 entry.2 (mem_lookup_iff.mpr mem)
    obtain ⟨result, folded, noneCase, someCase⟩ :=
      foldlM_consider state state.frames.entries accessed none
    cases result with
    | none =>
      left
      refine ⟨by simp only [replacer, evict, folded, bind, Except.bind]; rfl, ?_⟩
      intro frameId known
      obtain ⟨found, lookup, evictable⟩ := map_eq_some_iff.mp known
      have spared := (noneCase rfl).2 ⟨frameId, found⟩ (mem_lookup_iff.mp lookup)
      rw [evictable] at spared
      cases spared
    | some victim =>
      right
      rcases someCase victim rfl with before | ⟨entry, mem, same, evictable⟩
      · cases before
      · have lookup : state.frames.lookup victim.frameId = some entry.2 := by
          rw [← same]
          exact mem_lookup_iff.mpr mem
        have known : tracked state victim.frameId = some true := by
          rw [tracked, lookup, map_some, evictable]
        have removed := remove_ok valid known
        simp only [remove, lookup, evictable, if_true, Except.ok.injEq, exists_eq_left'] at removed
        refine ⟨victim.frameId, _, by simp only [replacer, evict, folded, bind, Except.bind]; rfl,
          known, ?_⟩
        exact removed

end LRUKReplacer

/-! ## Plain LRU -/

/-- `LRUReplacer`.  A frame's iterator into the list is the place of its only occurrence,
so the map keeps just the evictable flag. -/
structure LRUReplacer where
  numFrames : Nat
  evictableCount : Nat := 0
  /-- The least recently used frame first. -/
  lruList : List FrameId := []
  frames : AList fun _ : FrameId => Bool := ∅

namespace LRUReplacer

/-- `LRUReplacer::RecordAccess`. -/
def recordAccess (frameId : FrameId) (replacer : LRUReplacer) : Except Failure LRUReplacer :=
  if replacer.numFrames ≤ frameId then
    .error (.ioException "LRUReplacer: frame_id out of range")
  else
    .ok { replacer with
      lruList := replacer.lruList.erase frameId ++ [frameId]
      frames := replacer.frames.insert frameId ((replacer.frames.lookup frameId).getD false) }

/-- `LRUReplacer::SetEvictable`. -/
def setEvictable (frameId : FrameId) (evictable : Bool) (replacer : LRUReplacer) :
    LRUReplacer :=
  let old := (replacer.frames.lookup frameId).getD false
  { replacer with
    lruList :=
      if (replacer.frames.lookup frameId).isSome then replacer.lruList
      else replacer.lruList ++ [frameId]
    evictableCount :=
      if old = evictable then replacer.evictableCount
      else if evictable then replacer.evictableCount + 1
      else replacer.evictableCount - 1
    frames := replacer.frames.insert frameId evictable }

/-- `LRUReplacer::Evict`. -/
def evict (replacer : LRUReplacer) : Except Failure (Option FrameId × LRUReplacer) :=
  match replacer.lruList.find? fun frameId => (replacer.frames.lookup frameId).getD false with
  | none => .ok (none, replacer)
  | some frameId => .ok (some frameId, { replacer with
      lruList := replacer.lruList.erase frameId
      frames := replacer.frames.erase frameId
      evictableCount := replacer.evictableCount - 1 })

/-- `LRUReplacer::Remove`. -/
def remove (frameId : FrameId) (replacer : LRUReplacer) : Except Failure LRUReplacer :=
  match replacer.frames.lookup frameId with
  | none => .ok replacer
  | some evictable =>
    if evictable then
      .ok { replacer with
        lruList := replacer.lruList.erase frameId
        frames := replacer.frames.erase frameId
        evictableCount := replacer.evictableCount - 1 }
    else
      .error (.ioException "LRUReplacer: cannot remove a non-evictable (pinned) frame")

/-- `LRUReplacer::Size`. -/
def size (replacer : LRUReplacer) : Nat := replacer.evictableCount

/-- The replacer as the buffer pool sees it. -/
def replacer : Replacer LRUReplacer where
  evict := evict
  recordAccess := recordAccess
  setEvictable := setEvictable
  remove := remove
  size := size

/-- The list holds each tracked frame once, and the counter counts. -/
structure Valid (numFrames : Nat) (replacer : LRUReplacer) : Prop where
  frames_eq : replacer.numFrames = numFrames
  nodup : replacer.lruList.Nodup
  mem_iff : ∀ frameId, frameId ∈ replacer.lruList ↔
    (replacer.frames.lookup frameId).isSome
  count : replacer.evictableCount = countFrames id replacer.frames

/-- The frames tracked, with their evictable flag. -/
def tracked (replacer : LRUReplacer) (frameId : FrameId) : Option Bool :=
  replacer.frames.lookup frameId

section

variable {numFrames : Nat} {state : LRUReplacer} {frameId : FrameId}

lemma lookup_insert_eq (frames : AList fun _ : FrameId => Bool) (value : Bool) :
    (fun query => (frames.insert frameId value).lookup query) =
      update (fun query => frames.lookup query) frameId (some value) := by
  simpa using map_lookup_insert id frames frameId value

lemma lookup_erase_eq (frames : AList fun _ : FrameId => Bool) :
    (fun query => (frames.erase frameId).lookup query) =
      update (fun query => frames.lookup query) frameId none := by
  simpa using map_lookup_erase id frames frameId

lemma holdsFrame_eq (frames : AList fun _ : FrameId => Bool) :
    holdsFrame id frames frameId = (frames.lookup frameId).getD false := by
  rw [holdsFrame, Option.map_id_fun]
  rfl

lemma remove_ok (valid : Valid numFrames state) (known : tracked state frameId = some true) :
    ∃ state', remove frameId state = .ok state' ∧ Valid numFrames state' ∧
      tracked state' = update (tracked state) frameId none := by
  have lookup : state.frames.lookup frameId = some true := known
  refine ⟨{ state with
    lruList := state.lruList.erase frameId
    frames := state.frames.erase frameId
    evictableCount := state.evictableCount - 1 }, ?_, ⟨valid.frames_eq, ?_, ?_, ?_⟩,
    lookup_erase_eq _⟩
  · simp only [remove, lookup, if_true]
  · exact valid.nodup.erase frameId
  · intro query
    by_cases same : query = frameId
    · subst same
      simp [valid.nodup.not_mem_erase]
    · simp [lookup_erase_ne same, List.mem_erase_of_ne same, valid.mem_iff]
  · have held := countFrames_erase id state.frames frameId
    rw [holdsFrame_eq, lookup, getD_some, Bool.toNat_true] at held
    have count := valid.count
    simp only
    omega

end

/-- LRU meets the requirements of the pool. -/
def lawful (numFrames : Nat) : replacer.Lawful numFrames where
  Valid := Valid numFrames
  tracked := tracked
  recordAccess_ok := by
    intro state frameId valid inRange
    have known : ¬ state.numFrames ≤ frameId := by
      rw [valid.frames_eq]
      exact not_le.mpr inRange
    refine ⟨_, if_neg known, ⟨valid.frames_eq, ?_, ?_, ?_⟩, lookup_insert_eq _ _⟩
    · refine nodup_append.mpr ⟨valid.nodup.erase frameId, List.nodup_singleton _, ?_⟩
      intro query mem other isLast same
      rw [mem_singleton.mp isLast] at same
      rw [same] at mem
      exact valid.nodup.not_mem_erase mem
    · intro query
      by_cases same : query = frameId
      · subst same
        simp
      · simp [lookup_insert_ne same, same, List.mem_erase_of_ne same, valid.mem_iff]
    · have inserted := countFrames_insert id state.frames frameId
        ((state.frames.lookup frameId).getD false)
      rw [holdsFrame_eq] at inserted
      exact valid.count.trans (Nat.add_right_cancel inserted).symm
  setEvictable_ok := by
    intro state frameId evictable valid known
    rw [tracked] at known
    obtain ⟨old, lookup⟩ := isSome_iff_exists.mp known
    refine ⟨⟨valid.frames_eq, ?_, ?_, ?_⟩, lookup_insert_eq _ _⟩
    · simp only [replacer, setEvictable, known, if_true]
      exact valid.nodup
    · intro query
      simp only [replacer, setEvictable, known, if_true]
      by_cases same : query = frameId
      · subst same
        simp [valid.mem_iff, known]
      · simp [lookup_insert_ne same, valid.mem_iff]
    · have inserted := countFrames_insert id state.frames frameId evictable
      have held := countFrames_erase id state.frames frameId
      rw [holdsFrame_eq, lookup, getD_some] at inserted held
      have count := valid.count
      simp only [replacer, setEvictable, lookup, getD_some]
      cases old <;> cases evictable <;> simp at inserted held ⊢ <;> omega
  remove_ok := remove_ok
  evict_ok := by
    intro state valid
    cases found : state.lruList.find? fun frameId =>
        (state.frames.lookup frameId).getD false with
    | none =>
      left
      refine ⟨by simp only [replacer, evict, found], ?_⟩
      intro frameId known
      have lookup : state.frames.lookup frameId = some true := known
      have mem : frameId ∈ state.lruList := by
        rw [valid.mem_iff, lookup]
        rfl
      have spared := find?_eq_none.mp found frameId mem
      rw [lookup] at spared
      exact spared rfl
    | some frameId =>
      right
      have passes := find?_some found
      have known : tracked state frameId = some true := by
        rw [tracked]
        cases lookup : state.frames.lookup frameId with
        | none => simp [lookup] at passes
        | some flag => simpa [lookup] using passes
      have removed := remove_ok valid known
      simp only [remove, show state.frames.lookup frameId = some true from known, if_true,
        Except.ok.injEq, exists_eq_left'] at removed
      exact ⟨frameId, _, by simp only [replacer, evict, found], known, removed⟩

end LRUReplacer

end DbEngine.Buffer
